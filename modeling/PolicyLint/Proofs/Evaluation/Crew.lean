import PolicyLint.Proofs.Report.Independence
import PolicyLint.Report.Crew
/-!
Crews at work. What a step can do is said once, step by step; what holds at any time follows. Main statement:
whatever the order of the steps, the lock of an engine is held by the evaluation that is between the second
look for a tool and the end of its installation, and by no other.
-/
namespace PolicyLint

theorem EngineKind.validate_eq [Clock W] (kind : EngineKind) (config : EngineConfig W) (context : Context)
    (rule : Rule) (files : List String) :
    (kind.engine (some config)).validate context rule files =
      (kind.evaluator config).run context rule files (kind.pinned? rule) (kind.suggestion? rule) :=
  rfl

def Stage.isLocked : Stage → Bool
  | .calling .lookAgain | .install | .calling .installing | .calling .confirm | .release _ => true
  | _ => false

namespace Progress

def engine? : Progress W → Option Nat
  | .engaged _ engine => some engine
  | .under job _ => some job.engine
  | .fresh | .done _ => none

/-- The engine whose lock is held. -/
def locks? : Progress W → Option Nat
  | .under job stage => if stage.isLocked then some job.engine else none
  | .fresh | .engaged .. | .done _ => none

/-- A job that goes on or is done. -/
def Of (job : Job W) : Progress W → Prop
  | .under job' _ => job' = job
  | .done _ => True
  | .fresh | .engaged .. => False

theorem Of.engine? {job : Job W} {progress : Progress W} {engine : Nat} (of : progress.Of job)
    (here : progress.engine? = some engine) : some job.engine = some engine := by
  cases progress with
  | fresh | engaged => exact of.elim
  | done => cases here
  | under job' stage =>
    obtain rfl : job' = job := of
    exact here

end Progress

/-! ### Steps -/

/-- What an errand can lead to. -/
inductive Job.Leads (job : Job W) : Errand → Progress W → Prop where
  | found : Leads job .look (.under job (.calling .configure))
  | missing : Leads job .look (.under job .wait)
  | foundNow : Leads job .lookAgain (.under job (.release (.ok ())))
  | stillMissing : Leads job .lookAgain (.under job .install)
  | installed : Leads job .installing (.under job (.calling .confirm))
  | notInstalled (failure : Failure) : Leads job .installing (job.fail failure)
  | confirmed : Leads job .confirm (.under job (.release (.ok ())))
  | unconfirmed (failure : Failure) : Leads job .confirm (job.fail failure)
  | configured (config : String) : Leads job .configure (.under job (.calling (.execute config)))
  | unconfigured (failure : Failure) : Leads job .configure (.done (.error failure))
  | executed (config : String) (output : Output) :
      Leads job (.execute config) (.under job (.calling (.parse output)))
  | unexecuted (config : String) (failure : Failure) : Leads job (.execute config) (.done (.error failure))
  | read (output : Output) (found : List Finding) :
      Leads job (.parse output) (.under job (.calling (.finish found)))
  | unread (output : Output) (failure : Failure) : Leads job (.parse output) (.done (.error failure))
  | finished (found : List Finding) (result : RuleResult) : Leads job (.finish found) (.done (.ok result))

namespace Job

theorem run_leads [Clock W] (job : Job W) (given : Assignment) (request : InstallRequest)
    (errand : Errand) (w : W) : job.Leads errand (job.run given request errand w).1 := by
  cases errand with
  | look =>
    simp only [run]
    cases (job.adapter.check given.context w).1 with
    | ok => exact .found
    | error => exact .missing
  | lookAgain =>
    simp only [run]
    cases (job.adapter.check given.context w).1 with
    | ok => exact .foundNow
    | error => exact .stillMissing
  | installing =>
    simp only [run]
    cases (job.adapter.install given.context request w).1 with
    | ok => exact .installed
    | error failure => exact .notInstalled failure
  | confirm =>
    simp only [run]
    cases (job.adapter.check given.context w).1 with
    | ok => exact .confirmed
    | error failure => exact .unconfirmed failure
  | configure =>
    simp only [run]
    cases (job.adapter.configure given.rule w).1 with
    | ok config => exact .configured config
    | error failure => exact .unconfigured failure
  | execute config =>
    simp only [run]
    cases (job.adapter.execute given.context config given.kept w).1 with
    | ok output => exact .executed config output
    | error failure => exact .unexecuted config failure
  | parse output =>
    simp only [run]
    cases (job.adapter.parse output w).1 with
    | ok found => exact .read output found
    | error failure => exact .unread output failure
  | finish found => exact .finished found _

variable {job : Job W} {errand : Errand} {progress : Progress W}

/-- No errand takes the lock or gives it back. -/
theorem Leads.locks? (leads : job.Leads errand progress) :
    progress.locks? = (Progress.under job (.calling errand)).locks? := by
  cases leads <;> rfl

theorem Leads.of (leads : job.Leads errand progress) : progress.Of job := by
  cases leads with
  | unconfigured | unexecuted | unread | finished => trivial
  | _ => rfl

theorem leave_of (job : Job W) (result : Except Failure Unit) : (job.leave result).Of job := by
  cases result with
  | ok => rfl
  | error => trivial

theorem leave_locks? (job : Job W) (result : Except Failure Unit) : (job.leave result).locks? = none := by
  cases result <;> rfl

end Job

namespace Crew

@[simp]
theorem replace_same (family : Nat → α) (place : Nat) (value : α) :
    replace family place value place = value :=
  if_pos rfl

@[simp]
theorem replace_other (family : Nat → α) {place other : Nat} (apart : other ≠ place) (value : α) :
    replace family place value other = family other :=
  if_neg apart

theorem replace_self (family : Nat → α) (place : Nat) : replace family place (family place) = family := by
  funext other
  by_cases same : other = place
  · simp [same]
  · simp [same]

@[simp]
theorem put_progress_self (crew : Crew W) (caller : Nat) (progress : Progress W) :
    (crew.put caller progress).progress caller = progress :=
  replace_same ..

theorem put_progress_other (crew : Crew W) {caller other : Nat} (apart : other ≠ caller)
    (progress : Progress W) : (crew.put caller progress).progress other = crew.progress other :=
  replace_other _ apart _

@[simp]
theorem put_registry (crew : Crew W) (caller : Nat) (progress : Progress W) :
    (crew.put caller progress).registry = crew.registry :=
  rfl

@[simp]
theorem put_world (crew : Crew W) (caller : Nat) (progress : Progress W) :
    (crew.put caller progress).world = crew.world :=
  rfl

variable [Clock W] {work : Nat → Assignment}

theorem play_cons (crew : Crew W) (caller : Nat) (rest : List Nat) :
    crew.play work (caller :: rest) =
      ((crew.perform work caller).1.toList ++ ((crew.perform work caller).2.play work rest).1,
        ((crew.perform work caller).2.play work rest).2) :=
  rfl

theorem play_append (crew : Crew W) (before behind : List Nat) :
    crew.play work (before ++ behind) =
      ((crew.play work before).1 ++ ((crew.play work before).2.play work behind).1,
        ((crew.play work before).2.play work behind).2) := by
  induction before generalizing crew with
  | nil => rfl
  | cons caller rest ih => simp [play_cons, ih]

/-- What one step can do. -/
inductive Turn (work : Nat → Assignment) (crew : Crew W) (caller : Nat) :
    Option Start → Crew W → Prop where
  | ended {result} (here : crew.progress caller = .done result) : Turn work crew caller none crew
  | blocked {job other} (here : crew.progress caller = .under job .wait)
      (held : crew.holder job.engine = some other) : Turn work crew caller none crew
  | entered {progress registry w} (here : crew.progress caller = .fresh)
      (came : (work caller).enter (crew.registry, crew.world) = (progress, registry, w)) :
      Turn work crew caller none ({ crew with registry, world := w }.put caller progress)
  | begun {kind engine progress w} (here : crew.progress caller = .engaged kind engine)
      (came : (work caller).begin crew.registry.config kind engine crew.world = (progress, w)) :
      Turn work crew caller none ({ crew with world := w }.put caller progress)
  | called {job errand progress w} (here : crew.progress caller = .under job (.calling errand))
      (came : job.run (work caller) crew.registry.config.request errand crew.world = (progress, w))
      (leads : job.Leads errand progress) :
      Turn work crew caller none ({ crew with world := w }.put caller progress)
  | locked {job} (here : crew.progress caller = .under job .wait) (free : crew.holder job.engine = none) :
      Turn work crew caller none
        ({ crew with holder := replace crew.holder job.engine (some caller) }.put caller
          (.under job (.calling .lookAgain)))
  | started {job} (here : crew.progress caller = .under job .install) :
      Turn work crew caller (some ⟨caller, (work caller).rule.engine, job.adapter.name⟩)
        (crew.put caller (.under job (.calling .installing)))
  | released {job result} (here : crew.progress caller = .under job (.release result)) :
      Turn work crew caller none
        ({ crew with holder := replace crew.holder job.engine none }.put caller (job.leave result))

theorem perform_turn (work : Nat → Assignment) (crew : Crew W) (caller : Nat) :
    Turn work crew caller (crew.perform work caller).1 (crew.perform work caller).2 := by
  cases here : crew.progress caller with
  | fresh =>
    simp only [perform, here]
    exact .entered here rfl
  | engaged kind engine =>
    simp only [perform, here]
    exact .begun here rfl
  | done result =>
    simp only [perform, here]
    exact .ended here
  | under job stage =>
    cases stage with
    | calling errand =>
      simp only [perform, here]
      exact .called here rfl (job.run_leads ..)
    | wait =>
      cases held : crew.holder job.engine with
      | some other =>
        simp only [perform, here, held]
        exact .blocked here held
      | none =>
        simp only [perform, here, held]
        exact .locked here held
    | install =>
      simp only [perform, here]
      exact .started here
    | release result =>
      simp only [perform, here]
      exact .released here

end Crew

/-! ### Locks and engines -/

namespace EngineRegistry

variable {registry : EngineRegistry W}

/-- An engine that was made stays when another is asked for. -/
theorem lookup_get (name : String) {asked : String} {inst : EngineInstance W}
    (there : registry.instances.lookup asked = some inst) (w : W) :
    (get name (registry, w)).2.1.instances.lookup asked = some inst := by
  unfold get
  dsimp only
  cases registry.instances.lookup name with
  | some _ => exact there
  | none =>
    cases registry.factories.lookup name with
    | none => exact there
    | some factory =>
      dsimp only
      rcases registry.make name factory w with ⟨_ | engine, w'⟩
      · exact there
      · simp [keep, List.lookup_append, there]

theorem get_lookup {name : String} {inst : EngineInstance W} {w w' : W} {registry' : EngineRegistry W}
    (got : get name (registry, w) = (.ok inst, registry', w')) :
    registry'.instances.lookup name = some inst := by
  unfold get at got
  cases there : registry.instances.lookup name with
  | some _ =>
    simp only [there] at got
    cases got
    exact there
  | none =>
    cases known : registry.factories.lookup name with
    | none =>
      simp only [there, known] at got
      cases got
    | some factory =>
      rcases made : registry.make name factory w with ⟨_ | engine, _⟩
      · simp only [there, known, made] at got
        cases got
      · simp only [there, known, made] at got
        cases got
        simp [keep, List.lookup_append, there]

end EngineRegistry

theorem Assignment.enter_cases [Clock W] {given : Assignment} {config : EngineConfig W}
    {registry registry' : EngineRegistry W} {w w' : W} {progress : Progress W}
    (stocked : EngineRegistry.Stocked config registry)
    (came : given.enter (registry, w) = (progress, registry', w')) :
    w' = w ∧ EngineRegistry.Stocked config registry' ∧
      (∀ name inst, registry.instances.lookup name = some inst →
        registry'.instances.lookup name = some inst) ∧
      ((∃ result, progress = .done result) ∨ ∃ kind inst, progress = .engaged kind inst.serial ∧
        registry'.instances.lookup given.rule.engine = some inst) := by
  unfold enter at came
  cases known : EngineKind.find? given.rule.engine with
  | none =>
    simp only [known] at came
    cases came
    exact ⟨rfl, stocked, fun _ _ there => there, .inl ⟨_, rfl⟩⟩
  | some kind =>
    obtain ⟨inst, later, got, -, stocked'⟩ := stocked.get_known known w
    simp only [known, got] at came
    cases came
    have made := EngineRegistry.get_lookup got
    refine ⟨rfl, stocked', fun name old there => ?_, .inr ⟨kind, inst, rfl, made⟩⟩
    simpa [got] using EngineRegistry.lookup_get given.rule.engine there w

theorem Assignment.begin_cases [Clock W] {given : Assignment} {config : EngineConfig W} {kind : EngineKind}
    {engine : Nat} {w w' : W} {progress : Progress W}
    (came : given.begin config kind engine w = (progress, w')) :
    w' = (Clock.read w).2 ∧ ((∃ result, progress = .done result) ∨
      ∃ job, progress = .under job (.calling .look) ∧ job.engine = engine ∧
        job.adapter ∈ config.adapters.adapters) := by
  unfold begin at came
  dsimp only at came
  split at came
  · cases came
    exact ⟨rfl, .inl ⟨_, rfl⟩⟩
  · split at came
    · cases came
      exact ⟨rfl, .inl ⟨_, rfl⟩⟩
    · rename_i adapter resolved
      cases came
      exact ⟨rfl, .inr ⟨_, rfl, rfl, Evaluator.adapterFor_mem resolved rfl⟩⟩

namespace Crew

variable [Clock W] {work : Nat → Assignment} {config : EngineConfig W} {crew crew' : Crew W}
  {caller : Nat} {start : Option Start}

theorem Turn.other (turn : Turn work crew caller start crew') {other : Nat} (apart : other ≠ caller) :
    crew'.progress other = crew.progress other := by
  cases turn with
  | ended | blocked => rfl
  | entered | begun | called | locked | started | released => exact put_progress_other _ apart _

/-- What holds at any time, whatever the order of the steps was. -/
structure Sound (work : Nat → Assignment) (config : EngineConfig W) (crew : Crew W) : Prop where
  stocked : EngineRegistry.Stocked config crew.registry
  /-- The engine at work is the one that is handed out under its name. -/
  engaged : ∀ caller engine, (crew.progress caller).engine? = some engine →
    ∃ inst, crew.registry.instances.lookup (work caller).rule.engine = some inst ∧ inst.serial = engine
  listed : ∀ caller job stage, crew.progress caller = .under job stage →
    job.adapter ∈ config.adapters.adapters
  held : ∀ engine caller, crew.holder engine = some caller ↔ (crew.progress caller).locks? = some engine

theorem begun_sound (work : Nat → Assignment) {registry : EngineRegistry W}
    (stocked : EngineRegistry.Stocked config registry) (w : W) : (begun registry w).Sound work config :=
  ⟨stocked, nofun, nofun, fun _ _ => ⟨nofun, nofun⟩⟩

namespace Sound

/-- Where one evaluation goes on, it is its own engine, adapter and lock that count. -/
theorem put (sound : crew.Sound work config) {registry : EngineRegistry W} {world : W}
    {holder : Nat → Option Nat} {progress : Progress W} (stocked : EngineRegistry.Stocked config registry)
    (keeps : ∀ name inst, crew.registry.instances.lookup name = some inst →
      registry.instances.lookup name = some inst)
    (engaged : ∀ engine, progress.engine? = some engine →
      ∃ inst, registry.instances.lookup (work caller).rule.engine = some inst ∧ inst.serial = engine)
    (listed : ∀ job stage, progress = .under job stage → job.adapter ∈ config.adapters.adapters)
    (own : ∀ engine, holder engine = some caller ↔ progress.locks? = some engine)
    (others : ∀ engine other, other ≠ caller →
      (holder engine = some other ↔ crew.holder engine = some other)) :
    (Crew.put ⟨registry, world, holder, crew.progress⟩ caller progress).Sound work config := by
  refine ⟨stocked, fun other engine here => ?_, fun other job stage here => ?_, fun engine other => ?_⟩
  · by_cases same : other = caller
    · subst same
      rw [put_progress_self] at here
      exact engaged engine here
    · rw [put_progress_other _ same] at here
      obtain ⟨inst, made, serial⟩ := sound.engaged other engine here
      exact ⟨inst, keeps _ inst made, serial⟩
  · by_cases same : other = caller
    · subst same
      rw [put_progress_self] at here
      exact listed job stage here
    · rw [put_progress_other _ same] at here
      exact sound.listed other job stage here
  · by_cases same : other = caller
    · subst same
      rw [put_progress_self]
      exact own engine
    · rw [put_progress_other _ same]
      exact (others engine other same).trans (sound.held engine other)

/-- The same for an evaluation that has found its adapter: it stays with its engine and its adapter. -/
theorem stay (sound : crew.Sound work config) {job : Job W} {stage : Stage}
    (here : crew.progress caller = .under job stage) {world : W} {holder : Nat → Option Nat}
    {progress : Progress W} (of : progress.Of job)
    (own : ∀ engine, holder engine = some caller ↔ progress.locks? = some engine)
    (others : ∀ engine other, other ≠ caller →
      (holder engine = some other ↔ crew.holder engine = some other)) :
    (Crew.put ⟨crew.registry, world, holder, crew.progress⟩ caller progress).Sound work config := by
  refine sound.put sound.stocked (fun _ _ made => made) ?_ ?_ own others
  · intro engine its
    refine sound.engaged caller engine ?_
    rw [here]
    exact of.engine? its
  · rintro job' stage' rfl
    rw [show job' = job from of]
    exact sound.listed caller job stage here

theorem own_same (sound : crew.Sound work config) {progress : Progress W}
    (same : progress.locks? = (crew.progress caller).locks?) (engine : Nat) :
    crew.holder engine = some caller ↔ progress.locks? = some engine := by
  rw [same]
  exact sound.held engine caller

/-- A step keeps what holds at any time. -/
theorem step (sound : crew.Sound work config) (turn : Turn work crew caller start crew') :
    crew'.Sound work config := by
  cases turn with
  | ended | blocked => exact sound
  | entered here came =>
    obtain ⟨-, stocked, keeps, ⟨_, rfl⟩ | ⟨kind, inst, rfl, made⟩⟩ :=
      Assignment.enter_cases sound.stocked came
    · exact sound.put stocked keeps nofun nofun (sound.own_same (by rw [here]; rfl)) fun _ _ _ => Iff.rfl
    · refine sound.put stocked keeps ?_ nofun (sound.own_same (by rw [here]; rfl)) fun _ _ _ => Iff.rfl
      rintro _ ⟨⟩
      exact ⟨inst, made, rfl⟩
  | @begun kind engine _ _ here came =>
    have free (progress : Progress W) (absent : progress.locks? = none) (engine : Nat) :
        crew.holder engine = some caller ↔ progress.locks? = some engine :=
      sound.own_same (by rw [here, absent]; rfl) engine
    obtain ⟨-, ⟨_, rfl⟩ | ⟨job, rfl, rfl, listed⟩⟩ := Assignment.begin_cases came
    · exact sound.put sound.stocked (fun _ _ made => made) nofun nofun (free _ rfl) fun _ _ _ => Iff.rfl
    · rw [sound.stocked.config_eq] at listed
      refine sound.put sound.stocked (fun _ _ made => made) ?_ ?_ (free _ rfl) fun _ _ _ => Iff.rfl
      · rintro _ ⟨⟩
        exact sound.engaged caller _ (by rw [here]; rfl)
      · rintro _ _ ⟨⟩
        exact listed
  | called here _ leads =>
    exact sound.stay here leads.of (sound.own_same (by rw [here, leads.locks?])) fun _ _ _ => Iff.rfl
  | started here =>
    exact sound.stay here rfl (sound.own_same (by rw [here]; rfl)) fun _ _ _ => Iff.rfl
  | @locked job here free =>
    refine sound.stay here rfl (fun engine => ?_) fun engine other apart => ?_
    · have unheld := sound.held engine caller
      rw [here] at unheld
      by_cases same : engine = job.engine
      · subst same
        simp [Progress.locks?, Stage.isLocked]
      · simpa [Progress.locks?, Stage.isLocked, same, Ne.symm same] using unheld
    · by_cases same : engine = job.engine
      · subst same
        simp [free, Ne.symm apart]
      · simp [same]
  | @released job result here =>
    have holds (engine : Nat) := sound.held engine caller
    simp only [here, Progress.locks?, Stage.isLocked, if_true, Option.some.injEq] at holds
    refine sound.stay here (job.leave_of result) (fun engine => ?_) fun engine other apart => ?_
    · rw [job.leave_locks?]
      by_cases same : engine = job.engine
      · simp [same]
      · simpa [same, Ne.symm same] using holds engine
    · by_cases same : engine = job.engine
      · subst same
        simp [(holds _).mpr rfl, Ne.symm apart]
      · simp [same]

theorem play (sound : crew.Sound work config) (turns : List Nat) :
    (crew.play work turns).2.Sound work config := by
  induction turns generalizing crew with
  | nil => exact sound
  | cons caller rest ih => exact ih (sound.step (crew.perform_turn work caller))

/-- No two evaluations are between the second look and the end of an installation for one engine. -/
theorem exclusive (sound : crew.Sound work config) {first second engine : Nat}
    (here : (crew.progress first).locks? = some engine)
    (there : (crew.progress second).locks? = some engine) : first = second :=
  Option.some.inj (((sound.held engine first).mpr here).symm.trans ((sound.held engine second).mpr there))

end Sound
end Crew
end PolicyLint
