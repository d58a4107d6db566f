import PolicyLint.Proofs.Evaluation.Crew
/-!
Evaluations that come to their end. A step of an evaluation leaves to do what there was to do before, and
the lock only ever keeps one waiting for another that can go on. Main statements: every evaluation can be
brought to its end, and one that no other comes between gives what the evaluation as a whole gives.
-/
namespace PolicyLint

/-! ### What is left to do -/

namespace Job

variable [Clock W] (job : Job W) (given : Assignment) (request : InstallRequest)

def report (found : List Finding) : Action W RuleResult := do
  let ended ← Action.always Clock.read
  return .ofViolations given.rule.id job.kind.name given.language
    (found.map (Evaluator.violation given.rule job.adapter.name (job.kind.suggestion? given.rule)))
    (ended - job.started)

def read (output : Output) : Action W RuleResult := do
  let found ← job.adapter.parse output
  job.report given found

def execute (config : String) : Action W RuleResult := do
  let output ← job.adapter.execute given.context config given.kept
  job.read given output

/-- The tool is there. -/
def use : Action W RuleResult := do
  let config ← job.adapter.configure given.rule
  job.execute given config

/-- The tool was installed. -/
def confirm : Action W RuleResult := do
  ExceptT.adapt (Failure.installFailed job.adapter.name) (job.adapter.check given.context)
  job.use given

/-- The tool is missing. -/
def fetch : Action W RuleResult := do
  ExceptT.adapt (Failure.installFailed job.adapter.name) (job.adapter.install given.context request)
  job.confirm given

/-- The rest of an evaluation that nobody interrupts. -/
def rest : Stage → Action W RuleResult
  | .calling .look => do
    Evaluator.ensureAvailable given.context job.adapter request
    job.use given
  | .wait | .calling .lookAgain => do
    if (← (job.adapter.check given.context).outcome).isOk then job.use given else job.fetch given request
  | .install | .calling .installing => job.fetch given request
  | .calling .confirm => job.confirm given
  | .release result => do
    Action.ofExcept result
    job.use given
  | .calling .configure => job.use given
  | .calling (.execute config) => job.execute given config
  | .calling (.parse output) => job.read given output
  | .calling (.finish found) => job.report given found

end Job

namespace Progress

variable [Clock W] (given : Assignment) (config : EngineConfig W)

def rest : Progress W → Action (EngineRegistry.Workshop W) RuleResult
  | .fresh => Report.evaluate given.context given.rule given.files
  | .engaged kind _ =>
    EngineRegistry.inWorld
      ((kind.engine (some config)).validate given.context given.rule given.files)
  | .under job stage => EngineRegistry.inWorld (job.rest given config.request stage)
  | .done result => Action.ofExcept result

end Progress

namespace Job

variable [Clock W] (job : Job W) (given : Assignment) (request : InstallRequest) (config : EngineConfig W)
  (registry : EngineRegistry W)

theorem rest_look : job.rest given request (.calling .look) = (do
    let found ← Evaluator.findings given.context job.adapter request given.rule given.kept
    job.report given found) := by
  simp only [rest, use, execute, read, Evaluator.findings, bind_assoc]

/-- An errand leaves to do what there was to do before. -/
theorem rest_run (errand : Errand) (w : W) :
    (job.run given config.request errand w).1.rest given config
        (registry, (job.run given config.request errand w).2) =
      EngineRegistry.inWorld (job.rest given config.request (.calling errand)) (registry, w) := by
  cases errand with
  | look =>
    simp only [run, rest, EngineRegistry.inWorld, Action.bind_apply, Evaluator.ensureAvailable_apply]
    rcases job.adapter.check given.context w with ⟨_ | _, w⟩
    · simp only [Progress.rest, rest, EngineRegistry.inWorld, Action.bind_apply, Action.outcome_apply]
      rcases job.adapter.check given.context w with ⟨_ | _, w⟩
      · simp only [Except.isOk, Except.toBool, Bool.false_eq_true, ↓reduceIte, fetch, Action.bind_apply,
          Action.adapt_apply]
        rcases job.adapter.install given.context config.request w with ⟨_ | _, w⟩
        · rfl
        · simp only [confirm, Except.mapError, Action.bind_apply, Action.adapt_apply]
      · rfl
    · rfl
  | lookAgain =>
    simp only [run, rest, EngineRegistry.inWorld, Action.bind_apply, Action.outcome_apply]
    rcases job.adapter.check given.context w with ⟨_ | _, w⟩ <;> rfl
  | installing =>
    simp only [run, rest, fetch, EngineRegistry.inWorld, Action.bind_apply, Action.adapt_apply]
    rcases job.adapter.install given.context config.request w with ⟨_ | _, w⟩ <;> rfl
  | confirm =>
    simp only [run, rest, confirm, EngineRegistry.inWorld, Action.bind_apply, Action.adapt_apply]
    rcases job.adapter.check given.context w with ⟨_ | _, w⟩ <;> rfl
  | configure =>
    simp only [run, rest, use, EngineRegistry.inWorld, Action.bind_apply]
    rcases job.adapter.configure given.rule w with ⟨_ | _, w⟩ <;> rfl
  | execute config' =>
    simp only [run, rest, execute, EngineRegistry.inWorld, Action.bind_apply]
    rcases job.adapter.execute given.context config' given.kept w with ⟨_ | _, w⟩ <;> rfl
  | parse output =>
    simp only [run, rest, read, EngineRegistry.inWorld, Action.bind_apply]
    rcases job.adapter.parse output w with ⟨_ | _, w⟩ <;> rfl
  | finish found => rfl

end Job

namespace Assignment

variable [Clock W] (given : Assignment)

theorem rest_enter {config : EngineConfig W} {registry : EngineRegistry W}
    (stocked : EngineRegistry.Stocked config registry) (w : W) :
    (given.enter (registry, w)).1.rest given config (given.enter (registry, w)).2 =
      Report.evaluate given.context given.rule given.files (registry, w) := by
  unfold enter
  cases known : EngineKind.find? given.rule.engine with
  | none => exact (Report.evaluate_unknown _ _ stocked known w).symm
  | some kind =>
    obtain ⟨inst, registry', got, engine, -⟩ := stocked.get_known known w
    simp only [got, Progress.rest, Report.evaluate, Action.bind_apply, engine]

theorem rest_begin (config : EngineConfig W) (registry : EngineRegistry W) (kind : EngineKind)
    (engine : Nat) (w : W) :
    (given.begin config kind engine w).1.rest given config
        (registry, (given.begin config kind engine w).2) =
      (Progress.engaged kind engine).rest given config (registry, w) := by
  simp only [Progress.rest.eq_2, kind.validate_eq, EngineRegistry.inWorld, Evaluator.run_apply, begin,
    kept, language]
  by_cases empty : Selector.keep given.rule.selector given.files = []
  · simp only [empty, if_true]
    rfl
  · simp only [empty, if_false]
    rcases (kind.evaluator config).adapterFor given.rule _ (kind.pinned? given.rule) with failure | adapter
    · rfl
    · simp only [Progress.rest, EngineRegistry.inWorld, Job.rest_look, Action.bind_apply, kept,
        EngineKind.evaluator]
      rcases Evaluator.findings given.context adapter config.request given.rule _ (Clock.read w).2 with
        ⟨_ | _, _⟩ <;> rfl

end Assignment

namespace Crew

variable [Clock W] {work : Nat → Assignment} {config : EngineConfig W} {crew crew' : Crew W}
  {caller : Nat} {start : Option Start}

/-- What is left to do for an evaluation is what was left to do before its step, in the world that the step
leaves behind. -/
theorem Turn.rest (turn : Turn work crew caller start crew')
    (stocked : EngineRegistry.Stocked config crew.registry) :
    (crew'.progress caller).rest (work caller) config (crew'.registry, crew'.world) =
      (crew.progress caller).rest (work caller) config (crew.registry, crew.world) := by
  obtain rfl := stocked.config_eq
  cases turn with
  | ended here => rfl
  | blocked here held => rfl
  | entered here came =>
    have same := (work caller).rest_enter stocked crew.world
    rw [came] at same
    simpa [here, Progress.rest] using same
  | @begun kind engine _ _ here came =>
    have same := (work caller).rest_begin crew.registry.config crew.registry kind engine crew.world
    rw [came] at same
    simpa [here] using same
  | @called job errand _ _ here came =>
    have same := job.rest_run (work caller) crew.registry.config crew.registry errand crew.world
    rw [came] at same
    simpa [here, Progress.rest] using same
  | locked here free => simp [here]; rfl
  | started here => simp [here]; rfl
  | @released job result here =>
    cases result <;> simp [here, Job.leave] <;> rfl

end Crew

/-! ### How much is left to do -/

/-- How many steps an evaluation may still take. -/
def Progress.left : Progress W → Nat
  | .fresh => 13
  | .engaged .. => 12
  | .under _ (.calling .look) => 11
  | .under _ .wait => 10
  | .under _ (.calling .lookAgain) => 9
  | .under _ .install => 8
  | .under _ (.calling .installing) => 7
  | .under _ (.calling .confirm) => 6
  | .under _ (.release _) => 5
  | .under _ (.calling .configure) => 4
  | .under _ (.calling (.execute _)) => 3
  | .under _ (.calling (.parse _)) => 2
  | .under _ (.calling (.finish _)) => 1
  | .done _ => 0

theorem Progress.left_le (progress : Progress W) : progress.left ≤ Crew.stepsAtMost := by
  unfold left
  split <;> decide

theorem Progress.left_eq_zero {progress : Progress W} (zero : progress.left = 0) :
    ∃ result, progress = .done result := by
  cases progress with
  | done result => exact ⟨result, rfl⟩
  | fresh | engaged => cases zero
  | under job stage =>
    cases stage with
    | calling errand => cases errand <;> cases zero
    | wait | install | release => cases zero

theorem Job.Leads.left {job : Job W} {errand : Errand} {progress : Progress W}
    (leads : job.Leads errand progress) : progress.left < (Progress.under job (.calling errand)).left := by
  cases leads <;> simp [Progress.left, Job.fail]

namespace Crew

variable [Clock W] {work : Nat → Assignment} {config : EngineConfig W} {crew crew' : Crew W}
  {caller : Nat} {start : Option Start}

/-- An evaluation that is not done goes on with its step, unless it has to wait for the lock. -/
theorem Turn.lowers (turn : Turn work crew caller start crew') (sound : crew.Sound work config) :
    (∃ result, crew.progress caller = .done result ∧ crew' = crew) ∨
      (∃ job other, crew.progress caller = .under job .wait ∧
        (crew.progress other).locks? = some job.engine ∧ crew' = crew) ∨
      (crew'.progress caller).left < (crew.progress caller).left := by
  cases turn with
  | ended here => exact .inl ⟨_, here, rfl⟩
  | blocked here held => exact .inr (.inl ⟨_, _, here, (sound.held _ _).mp held, rfl⟩)
  | entered here came =>
    right; right
    obtain ⟨-, -, -, ⟨_, rfl⟩ | ⟨_, _, rfl, -⟩⟩ := Assignment.enter_cases sound.stocked came <;>
      simp [here, Progress.left]
  | begun here came =>
    right; right
    obtain ⟨-, ⟨_, rfl⟩ | ⟨_, rfl, -⟩⟩ := Assignment.begin_cases came <;> simp [here, Progress.left]
  | called here _ leads =>
    right; right
    simpa [here] using leads.left
  | locked here | started here =>
    right; right
    simp [here, Progress.left]
  | @released _ result here =>
    right; right
    cases result <;> simp [here, Job.leave, Progress.left]

/-- Who holds a lock goes on. -/
theorem Turn.lowers_locked (turn : Turn work crew caller start crew') (sound : crew.Sound work config)
    {engine : Nat} (locked : (crew.progress caller).locks? = some engine) :
    (crew'.progress caller).left < (crew.progress caller).left := by
  rcases turn.lowers sound with ⟨_, done, -⟩ | ⟨_, _, waits, -⟩ | less
  · rw [done] at locked
    cases locked
  · rw [waits] at locked
    cases locked
  · exact less

/-- So does an evaluation that is not done, where nobody holds the lock that it may want. -/
theorem Turn.lowers_free (turn : Turn work crew caller start crew') (sound : crew.Sound work config)
    (free : ∀ job, crew.progress caller = .under job .wait → crew.holder job.engine = none) :
    (∃ result, crew.progress caller = .done result ∧ crew' = crew) ∨
      (crew'.progress caller).left < (crew.progress caller).left := by
  rcases turn.lowers sound with done | ⟨job, other, waits, locked, -⟩ | less
  · exact .inl done
  · rw [← sound.held, free job waits] at locked
    cases locked
  · exact .inr less

/-- A lock that is held is given back when its holder goes on. -/
theorem Sound.freed (sound : crew.Sound work config) {holder engine : Nat}
    (locked : (crew.progress holder).locks? = some engine) :
    ∃ turns, (crew.play work turns).2.holder engine = none ∧
      ∀ other, other ≠ holder → (crew.play work turns).2.progress other = crew.progress other := by
  induction left : (crew.progress holder).left using Nat.strongRecOn generalizing crew with
  | _ n ih =>
    subst left
    have turn := crew.perform_turn work holder
    have sound' := sound.step turn
    by_cases still : ((crew.perform work holder).2.progress holder).locks? = some engine
    · obtain ⟨turns, free, same⟩ := ih _ (turn.lowers_locked sound locked) sound' still rfl
      exact ⟨holder :: turns, free, fun other apart => (same other apart).trans (turn.other apart)⟩
    · refine ⟨[holder], Option.eq_none_iff_forall_ne_some.mpr fun other held => ?_, fun _ => turn.other⟩
      -- Nobody else held the lock before, and the step has changed nobody else.
      have its := (sound'.held engine other).mp held
      have apart : other ≠ holder := by
        rintro rfl
        exact still its
      rw [turn.other apart] at its
      exact apart (sound.exclusive its locked)

theorem Sound.goesOn (sound : crew.Sound work config)
    (unfinished : ∀ result, crew.progress caller ≠ .done result) :
    ∃ turns, ((crew.play work turns).2.progress caller).left < (crew.progress caller).left := by
  rcases (crew.perform_turn work caller).lowers sound with
    ⟨result, done, -⟩ | ⟨job, other, waits, locked, -⟩ | less
  · exact absurd done (unfinished result)
  · obtain ⟨turns, free, same⟩ := sound.freed locked
    have apart : caller ≠ other := by
      rintro rfl
      rw [waits] at locked
      cases locked
    have here := (same caller apart).trans waits
    refine ⟨turns ++ [caller], ?_⟩
    rw [← same caller apart, play_append]
    have turn := (crew.play work turns).2.perform_turn work caller
    rcases turn.lowers_free (sound.play turns) (by simpa [here] using free) with ⟨_, done, -⟩ | less
    · rw [here] at done
      cases done
    · exact less
  · exact ⟨[caller], less⟩

/-- Whatever the state, every evaluation can be brought to its end. -/
theorem Sound.finishes (sound : crew.Sound work config) (caller : Nat) :
    ∃ turns result, (crew.play work turns).2.progress caller = .done result := by
  induction left : (crew.progress caller).left using Nat.strongRecOn generalizing crew with
  | _ n ih =>
    subst left
    by_cases done : ∃ result, crew.progress caller = .done result
    · exact ⟨[], done⟩
    · obtain ⟨turns, less⟩ := sound.goesOn (not_exists.mp done)
      obtain ⟨more, result, ends⟩ := ih _ less (sound.play turns) rfl
      exact ⟨turns ++ more, result, by rw [play_append]; exact ends⟩

/-! ### Evaluations that nothing comes between -/

/-- Nobody but one holds a lock. -/
def Lone (crew : Crew W) (caller : Nat) : Prop :=
  ∀ other, other ≠ caller → (crew.progress other).locks? = none

theorem Lone.step (lone : crew.Lone caller) (turn : Turn work crew caller start crew') :
    crew'.Lone caller := by
  intro other apart
  rw [turn.other apart]
  exact lone other apart

theorem Lone.unheld (lone : crew.Lone caller) (sound : crew.Sound work config)
    (unlocked : (crew.progress caller).locks? = none) : crew.holder = fun _ => none := by
  refine funext fun engine => Option.eq_none_iff_forall_ne_some.mpr fun other held => ?_
  have its := (sound.held engine other).mp held
  by_cases same : other = caller
  · rw [same, unlocked] at its
    cases its
  · rw [lone other same] at its
    cases its

theorem Lone.lowers (lone : crew.Lone caller) (sound : crew.Sound work config)
    (turn : Turn work crew caller start crew') :
    (∃ result, crew.progress caller = .done result ∧ crew' = crew) ∨
      (crew'.progress caller).left < (crew.progress caller).left :=
  turn.lowers_free sound fun job waits => by rw [lone.unheld sound (by rw [waits]; rfl)]

/-- The crew after the rest of one evaluation, without locks. -/
def settle (work : Nat → Assignment) (config : EngineConfig W) (crew : Crew W) (caller : Nat) : Crew W :=
  let r := (crew.progress caller).rest (work caller) config (crew.registry, crew.world)
  ⟨r.2.1, r.2.2, fun _ => none, replace crew.progress caller (.done r.1)⟩

theorem settle_other {other : Nat} (apart : other ≠ caller) :
    (crew.settle work config caller).progress other = crew.progress other :=
  replace_other _ apart _

theorem Turn.settle (turn : Turn work crew caller start crew') (sound : crew.Sound work config) :
    crew'.settle work config caller = crew.settle work config caller := by
  have same (progress : Progress W) :
      replace crew'.progress caller progress = replace crew.progress caller progress := by
    funext other
    by_cases here : other = caller
    · simp [here]
    · simp [here, turn.other here]
  simp only [Crew.settle, turn.rest sound.stocked, same]

theorem Lone.settle_done (lone : crew.Lone caller) (sound : crew.Sound work config)
    {result : Except Failure RuleResult} (done : crew.progress caller = .done result) :
    crew.settle work config caller = crew := by
  have unheld := lone.unheld sound (by rw [done]; rfl)
  simp only [settle, done, Progress.rest, Action.ofExcept_apply]
  rw [← done, replace_self, ← unheld]

/-- An evaluation that no other comes between ends with what there is left to do. -/
theorem Sound.play_alone (sound : crew.Sound work config) (lone : crew.Lone caller) {turns : Nat}
    (enough : (crew.progress caller).left ≤ turns) :
    (crew.play work (List.replicate turns caller)).2 = crew.settle work config caller := by
  induction turns generalizing crew with
  | zero =>
    obtain ⟨result, done⟩ := Progress.left_eq_zero (Nat.le_zero.mp enough)
    exact (lone.settle_done sound done).symm
  | succ turns ih =>
    have turn := crew.perform_turn work caller
    have less : ((crew.perform work caller).2.progress caller).left ≤ turns := by
      rcases lone.lowers sound turn with ⟨_, done, same⟩ | less
      · rw [same, done]
        exact Nat.zero_le _
      · omega
    rw [List.replicate_succ, play_cons]
    exact (ih (sound.step turn) (lone.step turn) less).trans (turn.settle sound)

/-- As many steps of one evaluation as it takes. -/
def alone (caller : Nat) : List Nat :=
  List.replicate stepsAtMost caller

theorem settle_fresh (config : EngineConfig W) (fresh : crew.progress caller = .fresh) :
    crew.settle work config caller =
      let r := Report.evaluate (work caller).context (work caller).rule (work caller).files
        (crew.registry, crew.world)
      ⟨r.2.1, r.2.2, fun _ => none, replace crew.progress caller (.done r.1)⟩ := by
  rw [settle, fresh]
  rfl

/-- A rule that is evaluated while nobody else is at a lock has the outcome of its evaluation as a whole. -/
theorem Sound.play_fresh (sound : crew.Sound work config) (lone : crew.Lone caller)
    (fresh : crew.progress caller = .fresh) :
    (crew.play work (alone caller)).2 =
      let r := Report.evaluate (work caller).context (work caller).rule (work caller).files
        (crew.registry, crew.world)
      ⟨r.2.1, r.2.2, fun _ => none, replace crew.progress caller (.done r.1)⟩ := by
  rw [← settle_fresh config fresh]
  exact sound.play_alone lone (by rw [fresh]; exact Nat.le_refl _)

end Crew
end PolicyLint
