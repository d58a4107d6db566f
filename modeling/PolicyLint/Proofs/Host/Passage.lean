import Mathlib.Data.List.Basic
import PolicyLint.Host.Basic
import PolicyLint.Proofs.Action
/-!
Steps of a host under a context that is over. A passage is what such a step may do to its host: time may
go on in it, and a quiet one leaves the list of calls as it is. Running a program is no such step; the
executor fails before it, and so does whatever ends with the executor.
-/
namespace PolicyLint

namespace Context

/-- Called off, or out of time. -/
def IsOver (context : Context) (now : Nat) : Prop :=
  context.isCancelled now = true ∨ ∃ deadline ∈ context.deadline, deadline ≤ now

theorem IsOver.later {context : Context} {now then' : Nat} (past : context.IsOver now)
    (le : now ≤ then') : context.IsOver then' := by
  rcases past with cancelled | ⟨deadline, given, passed⟩
  · left
    unfold isCancelled at cancelled ⊢
    cases since : context.cancelledFrom with
    | none => simp [since] at cancelled
    | some time =>
      have reached : time ≤ now := by simpa [since] using cancelled
      simpa using Nat.le_trans reached le
  · exact .inr ⟨deadline, given, Nat.le_trans passed le⟩

/-- The check fails exactly when the context is over. -/
theorem check_eq_ok_iff {context : Context} {now : Nat} {program : String} :
    context.check now program = .ok () ↔ ¬ context.IsOver now := by
  unfold check IsOver
  by_cases cancelled : context.isCancelled now = true
  · simp [cancelled]
  · cases given : context.deadline with
    | none => simp [cancelled]
    | some deadline => by_cases passed : deadline ≤ now <;> simp [cancelled, passed]

theorem IsOver.check {context : Context} {now : Nat} (past : context.IsOver now) (program : String) :
    ∃ failure, context.check now program = .error failure := by
  cases checked : context.check now program with
  | error failure => exact ⟨failure, rfl⟩
  | ok => exact absurd past (check_eq_ok_iff.mp checked)

end Context

namespace Host

/-- Time goes on. -/
def Later (host after : Host) : Prop :=
  host.now ≤ after.now

/-- Time goes on, and no program is called. -/
structure Quiet (host after : Host) : Prop where
  later : host.Later after
  calls : after.calls = host.calls

/-- What may become of a host in steps one after the other. -/
structure Passage (may : Host → Host → Prop) : Prop where
  quiet : ∀ {host after}, host.Quiet after → may host after
  trans : ∀ {host after last}, may host after → may after last → may host last
  later : ∀ {host after}, may host after → host.Later after

theorem Quiet.refl (host : Host) : host.Quiet host :=
  ⟨Nat.le_refl _, rfl⟩

theorem quiet_passage : Passage Quiet where
  quiet := id
  trans first second := ⟨Nat.le_trans first.later second.later, second.calls.trans first.calls⟩
  later := Quiet.later

theorem later_passage : Passage Later where
  quiet := Quiet.later
  trans := Nat.le_trans
  later := id

theorem quiet_read (host : Host) : host.Quiet (Clock.read host).2 :=
  ⟨Nat.le_add_right _ 1000, rfl⟩

/-- Changes to the files alone are quiet. -/
theorem quiet_of_files {host : Host} (tree : FileTree) (scratch : List Place) :
    host.Quiet { host with tree, scratch } :=
  ⟨Nat.le_refl _, rfl⟩

theorem quiet_openConfig {host after : Host} {directory lead tail content path : String}
    (opened : host.openConfig directory lead tail content = .ok (path, after)) : host.Quiet after := by
  unfold openConfig at opened
  cases made : host.tree.makeDirectories host.directory directory with
  | error error => simp [made, bind, Except.bind] at opened
  | ok tree =>
    simp only [made, bind, Except.bind] at opened
    split at opened
    · cases opened
    · split at opened
      · cases opened
      · obtain ⟨-, rfl⟩ := Prod.mk.inj (Except.ok.inj opened)
        exact quiet_of_files _ _

theorem quiet_closeConfig (host : Host) (path : String) : host.Quiet (host.closeConfig path) := by
  unfold closeConfig
  split
  · exact quiet_of_files _ _
  · exact .refl host

end Host

namespace Action

open Host (Passage)

theorem get_apply (host : Host) : (get : Action Host Host) host = (.ok host, host) := rfl

theorem set_apply (after host : Host) : (set after : Action Host PUnit) host = (.ok ⟨⟩, after) := rfl

section Passing

variable (may : Host → Host → Prop) (context : Context)

/-- Once the context is over, the step does to its host what it may. -/
def Passes (step : Action Host α) : Prop :=
  ∀ host, context.IsOver host.now → may host (step host).2

/-- Once the context is over, the step fails besides. -/
def Refuses (step : Action Host α) : Prop :=
  ∀ host, context.IsOver host.now →
    (∃ failure, (step host).1 = .error failure) ∧ may host (step host).2

end Passing

variable {may : Host → Host → Prop} {context : Context}

theorem Refuses.passes {step : Action Host α} (refuses : Refuses may context step) :
    Passes may context step :=
  fun host past => (refuses host past).2

theorem Passes.of_quiet (passage : Passage may) {step : Action Host α}
    (quiet : Passes Host.Quiet context step) : Passes may context step :=
  fun host past => passage.quiet (quiet host past)

theorem Refuses.of_quiet (passage : Passage may) {step : Action Host α}
    (quiet : Refuses Host.Quiet context step) : Refuses may context step :=
  fun host past => ⟨(quiet host past).1, passage.quiet (quiet host past).2⟩

theorem passes_pure (passage : Passage may) (a : α) : Passes may context (pure a) :=
  fun host _ => passage.quiet (.refl host)

theorem passes_ofExcept (passage : Passage may) (result : Except Failure α) :
    Passes may context (ofExcept result) :=
  fun host _ => passage.quiet (.refl host)

theorem refuses_fail (passage : Passage may) (failure : Failure) :
    Refuses (α := α) may context (fail failure) :=
  fun host _ => ⟨⟨failure, rfl⟩, passage.quiet (.refl host)⟩

theorem Passes.outcome {step : Action Host α} (passes : Passes may context step) :
    Passes may context step.outcome :=
  passes

theorem Passes.adapt {step : Action Host α} (passes : Passes may context step)
    (wrap : Failure → Failure) : Passes may context (ExceptT.adapt wrap step) := by
  intro host past
  rw [adapt_apply]
  exact passes host past

theorem Passes.bind (passage : Passage may) {step : Action Host α} {next : α → Action Host β}
    (here : Passes may context step) (there : ∀ a, Passes may context (next a)) :
    Passes may context (step >>= next) := by
  intro host past
  have first := here host past
  rw [bind_apply]
  rcases ran : step host with ⟨failure | a, after⟩
  · rw [ran] at first
    exact first
  · rw [ran] at first
    exact passage.trans first (there a after (past.later (passage.later first)))

/-- Steps in a row fail where one of them is sure to. -/
theorem Passes.bind_refuses (passage : Passage may) {step : Action Host α} {next : α → Action Host β}
    (here : Passes may context step) (there : ∀ a, Refuses may context (next a)) :
    Refuses may context (step >>= next) := by
  intro host past
  have first := here host past
  rw [bind_apply]
  rcases ran : step host with ⟨failure | a, after⟩
  · rw [ran] at first
    exact ⟨⟨failure, rfl⟩, first⟩
  · rw [ran] at first
    obtain ⟨failed, second⟩ := there a after (past.later (passage.later first))
    exact ⟨failed, passage.trans first second⟩

theorem Refuses.bind {step : Action Host α} (refuses : Refuses may context step)
    (next : α → Action Host β) : Refuses may context (step >>= next) := by
  intro host past
  obtain ⟨⟨failure, failed⟩, passed⟩ := refuses host past
  rw [bind_error failed]
  exact ⟨⟨failure, rfl⟩, passed⟩

/-- A look at the host changes nothing. -/
theorem refuses_get {next : Host → Action Host α} (there : ∀ host, Refuses may context (next host)) :
    Refuses may context (get >>= next) := by
  intro host past
  rw [bind_apply, get_apply]
  exact there host host past

theorem passes_get {next : Host → Action Host α} (there : ∀ host, Passes may context (next host)) :
    Passes may context (get >>= next) := by
  intro host past
  rw [bind_apply, get_apply]
  exact there host host past

theorem passes_guard (passage : Passage may) (wrong : Prop) [Decidable wrong] (failure : Failure) :
    Passes may context (if wrong then fail failure else pure ()) := by
  split
  · exact (refuses_fail passage failure).passes
  · exact passes_pure passage ()

/-- A look at the clock and then the context's own check: what follows is not reached. -/
theorem refuses_check (program : String) (next : Unit → Action Host α) :
    Refuses Host.Quiet context (do
      let now ← always Clock.read
      let checked ← ofExcept (context.check now program)
      next checked) := by
  intro host past
  have failing : Clock.read host = (host.now, (Clock.read host).2) := rfl
  obtain ⟨failure, failed⟩ := past.check program
  rw [bind_apply, always_apply, failing]
  dsimp only
  rw [bind_apply, ofExcept_apply, failed]
  exact ⟨⟨failure, rfl⟩, Host.quiet_read host⟩

/-- A configuration file is put there and taken away around a step that fails. -/
theorem Refuses.withConfig {use : String → Action Host α}
    (refuses : ∀ path, Refuses Host.Quiet context (use path)) (directory lead tail content : String) :
    Refuses Host.Quiet context (Host.withConfig directory lead tail content use) := by
  intro host past
  unfold Host.withConfig
  cases opened : host.openConfig directory lead tail content with
  | error error => exact ⟨⟨_, rfl⟩, .refl host⟩
  | ok file =>
    obtain ⟨path, after⟩ := file
    have first := Host.quiet_openConfig opened
    obtain ⟨failed, second⟩ := refuses path after (past.later first.later)
    have through := Host.quiet_passage.trans first second
    exact ⟨failed, Host.quiet_passage.trans through (Host.quiet_closeConfig _ path)⟩

end Action

namespace Executor

/-- The executor starts nothing for a context that is over. -/
theorem execute_refuses (executor : Executor) (context : Context) (program : String)
    (arguments : List String) :
    Action.Refuses Host.Quiet context (executor.execute context program arguments) :=
  Action.refuses_check program _

end Executor
end PolicyLint
