import Mathlib.Data.List.Perm.Subperm
import PolicyLint.Proofs.Evaluation.Alone
import PolicyLint.Tool.Toolbox
/-!
Installations that are started. Main statement: where the installation of a tool puts it there for good, no
engine starts it twice, in whatever order any number of evaluations take their steps. The lock is the
engine's own, though, so two engines whose evaluations look for the tool at the same time both start it.
-/
namespace PolicyLint

section Provision

variable (fit isThere : W → Prop)

/-- A change that takes neither a tool away nor what its installation needs. -/
def Harmless (change : W → W) : Prop :=
  ∀ w, fit w → fit (change w) ∧ (isThere w → isThere (change w))

/-- An adapter none of whose calls does so, at least not those that evaluations make. -/
structure Adapter.Spares (work : Nat → Assignment) (request : InstallRequest) (adapter : Adapter W) :
    Prop where
  check : ∀ caller, Harmless fit isThere fun w => (adapter.check (work caller).context w).2
  install : ∀ caller, Harmless fit isThere fun w => (adapter.install (work caller).context request w).2
  configure : ∀ caller, Harmless fit isThere fun w => (adapter.configure (work caller).rule w).2
  execute : ∀ caller written,
    Harmless fit isThere fun w => (adapter.execute (work caller).context written (work caller).kept w).2
  parse : ∀ output, Harmless fit isThere fun w => (adapter.parse output w).2

/-- A tool that is there once its installation has run, in a world that is fit for it, and that stays there
whatever else the evaluations do. -/
structure Provided [Clock W] (work : Nat → Assignment) (config : EngineConfig W) (tool : String) :
    Prop where
  found : ∀ adapter ∈ config.adapters.adapters, adapter.name = tool → ∀ caller w, fit w →
    isThere w → (adapter.check (work caller).context w).1 = .ok ()
  installed : ∀ adapter ∈ config.adapters.adapters, adapter.name = tool → ∀ caller w, fit w →
    isThere (adapter.install (work caller).context config.request w).2
  spares : ∀ adapter ∈ config.adapters.adapters, adapter.Spares fit isThere work config.request
  clock : Harmless fit isThere fun w => (Clock.read w).2

end Provision

variable [Clock W] {fit isThere : W → Prop} {work : Nat → Assignment} {config : EngineConfig W}
  {tool : String}

/-- No errand takes the tool away. -/
theorem Provided.run (provided : Provided fit isThere work config tool) {job : Job W}
    (listed : job.adapter ∈ config.adapters.adapters) (caller : Nat) (errand : Errand) :
    Harmless fit isThere fun w => (job.run (work caller) config.request errand w).2 := by
  have spares := provided.spares _ listed
  cases errand with
  | look | lookAgain | confirm => exact spares.check caller
  | installing => exact spares.install caller
  | configure => exact spares.configure caller
  | execute written => exact spares.execute caller written
  | parse output => exact spares.parse output
  | finish => exact provided.clock

/-- The starts of one tool's installation. -/
def startsOf (tool : String) (starts : List Start) : List Start :=
  starts.filter (·.tool = tool)

theorem startsOf_append (tool : String) (before behind : List Start) :
    startsOf tool (before ++ behind) = startsOf tool before ++ startsOf tool behind :=
  List.filter_append ..

namespace Crew

variable {crew crew' : Crew W} {caller : Nat} {start : Option Start} {starts : List Start}

/-- One name stands for one engine. -/
theorem Sound.engine_eq (sound : crew.Sound work config) {first second engine engine' : Nat}
    (here : (crew.progress first).engine? = some engine)
    (there : (crew.progress second).engine? = some engine')
    (same : (work first).rule.engine = (work second).rule.engine) : engine = engine' := by
  obtain ⟨inst, made, rfl⟩ := sound.engaged first engine here
  obtain ⟨inst', made', rfl⟩ := sound.engaged second engine' there
  rw [same, made'] at made
  rw [Option.some.inj made]

/-- Evaluations for one engine are not both at its lock. -/
theorem Sound.under_exclusive (sound : crew.Sound work config) {first second : Nat} {job job' : Job W}
    {stage stage' : Stage} (here : crew.progress first = .under job stage)
    (there : crew.progress second = .under job' stage') (locked : stage.isLocked = true)
    (locked' : stage'.isLocked = true) (same : (work first).rule.engine = (work second).rule.engine) :
    first = second := by
  have its : (crew.progress first).locks? = some job.engine := by
    simp [here, Progress.locks?, locked]
  have theirs : (crew.progress second).locks? = some job'.engine := by
    simp [there, Progress.locks?, locked']
  have engine := sound.engine_eq (by rw [here]; rfl) (by rw [there]; rfl) same
  exact sound.exclusive its (engine ▸ theirs)

/-! ### What a step has to do with an installation -/

namespace Turn

variable (turn : Turn work crew caller start crew')
include turn

theorem spares (provided : Provided fit isThere work config tool) (sound : crew.Sound work config)
    (fitting : fit crew.world) : fit crew'.world ∧ (isThere crew.world → isThere crew'.world) := by
  cases turn with
  | ended | blocked | locked | started | released => exact ⟨fitting, id⟩
  | entered _ came =>
    obtain ⟨rfl, -⟩ := Assignment.enter_cases sound.stocked came
    exact ⟨fitting, id⟩
  | begun _ came =>
    obtain ⟨rfl, -⟩ := Assignment.begin_cases came
    exact provided.clock _ fitting
  | @called job errand _ _ here came _ =>
    have spared := provided.run (sound.listed caller job _ here) caller errand _ fitting
    rw [sound.stocked.config_eq] at came
    simp only [came] at spared
    exact spared

/-- Nobody is about to start an installation but after a second look that did not find the tool. -/
theorem before_install (sound : crew.Sound work config) {job : Job W}
    (now : crew'.progress caller = .under job .install) :
    crew' = crew ∨ crew.progress caller = .under job (.calling .lookAgain) ∧
      (job.adapter.check (work caller).context crew.world).1 ≠ .ok () := by
  cases turn with
  | ended | blocked => exact .inl rfl
  | locked | started => simp at now
  | @released _ result => cases result <;> simp [Job.leave] at now
  | entered _ came =>
    obtain ⟨-, -, -, led⟩ := Assignment.enter_cases sound.stocked came
    rcases led with ⟨_, rfl⟩ | ⟨_, _, rfl, -⟩ <;> simp at now
  | begun _ came =>
    obtain ⟨-, ⟨_, rfl⟩ | ⟨_, rfl, -⟩⟩ := Assignment.begin_cases came <;> simp at now
  | called here came leads =>
    rw [put_progress_self] at now
    subst now
    cases leads with
    | stillMissing =>
      refine .inr ⟨here, fun found => ?_⟩
      simp [Job.run, found] at came

theorem installing {job : Job W} (here : crew.progress caller = .under job (.calling .installing)) :
    crew'.world =
      (job.adapter.install (work caller).context crew.registry.config.request crew.world).2 := by
  cases turn with
  | called here' came =>
    rw [here] at here'
    cases here'
    exact (congrArg Prod.snd came).symm
  | ended here' | blocked here' | entered here' | begun here' | locked here' | started here'
  | released here' =>
    rw [here] at here'
    cases here'

/-- What a step starts, it has decided on before. -/
theorem starts_cases : start = none ∨ ∃ job, crew.progress caller = .under job .install ∧
    start = some ⟨caller, (work caller).rule.engine, job.adapter.name⟩ ∧
    crew' = crew.put caller (.under job (.calling .installing)) := by
  cases turn with
  | started here => exact .inr ⟨_, here, rfl, rfl⟩
  | _ => exact .inl rfl

end Turn

/-! ### What the starts so far tell -/

/-- What the starts so far tell, of one tool: no engine has started twice, and the place of each evaluation
goes with what was started. -/
structure Logged (work : Nat → Assignment) (fit isThere : W → Prop) (tool : String) (starts : List Start)
    (crew : Crew W) : Prop where
  fit : fit crew.world
  once : ((startsOf tool starts).map Start.engine).Nodup
  /-- What was started has put the tool there, or is still under way. -/
  settled : ∀ start ∈ starts, start.tool = tool → isThere crew.world ∨
    ∃ caller job, crew.progress caller = .under job (.calling .installing) ∧ job.adapter.name = tool ∧
      (work caller).rule.engine = start.engine
  /-- What is about to be started was not started before for the engine. -/
  ready : ∀ caller job, crew.progress caller = .under job .install → job.adapter.name = tool →
    ∀ start ∈ starts, start.tool = tool → start.engine ≠ (work caller).rule.engine

omit [Clock W] in
theorem begun_logged (registry : EngineRegistry W) {w : W} (fitting : fit w) :
    Logged work fit isThere tool [] (begun registry w) :=
  ⟨fitting, List.nodup_nil, nofun, nofun⟩

namespace Logged

omit [Clock W] in
/-- A step that starts nothing. -/
theorem carry (logged : Logged work fit isThere tool starts crew)
    (others : ∀ other, other ≠ caller → crew'.progress other = crew.progress other)
    (fitting : fit crew'.world) (stays : isThere crew.world → isThere crew'.world)
    (ends : ∀ job, crew.progress caller = .under job (.calling .installing) → job.adapter.name = tool →
      isThere crew'.world)
    (ready : ∀ job, crew'.progress caller = .under job .install → job.adapter.name = tool →
      ∀ start ∈ starts, start.tool = tool → start.engine ≠ (work caller).rule.engine) :
    Logged work fit isThere tool starts crew' := by
  refine ⟨fitting, logged.once, fun start member its => ?_, fun other job here => ?_⟩
  · rcases logged.settled start member its with there | ⟨other, job, here, name, engine⟩
    · exact .inl (stays there)
    · by_cases same : other = caller
      · exact .inl (ends job (same ▸ here) name)
      · exact .inr ⟨other, job, (others other same).trans here, name, engine⟩
  · by_cases same : other = caller
    · subst same
      exact ready job here
    · exact logged.ready other job ((others other same).symm.trans here)

/-- The tool is still missing at the second look, so what was started before for the engine is neither done
nor, since the lock is held, under way. -/
theorem missing (logged : Logged work fit isThere tool starts crew)
    (provided : Provided fit isThere work config tool) (sound : crew.Sound work config) {job : Job W}
    (here : crew.progress caller = .under job (.calling .lookAgain)) (name : job.adapter.name = tool)
    (missing : (job.adapter.check (work caller).context crew.world).1 ≠ .ok ()) :
    ∀ start ∈ starts, start.tool = tool → start.engine ≠ (work caller).rule.engine := by
  intro start member its same
  rcases logged.settled start member its with there | ⟨other, job', installing, -, engine⟩
  · exact missing (provided.found _ (sound.listed caller job _ here) name caller _ logged.fit there)
  · have one := sound.under_exclusive here installing rfl rfl (same.symm.trans engine.symm)
    subst one
    rw [here] at installing
    cases installing

/-- The step with which an installation is started. -/
theorem started (logged : Logged work fit isThere tool starts crew) (sound : crew.Sound work config)
    {job : Job W} (here : crew.progress caller = .under job .install) :
    Logged work fit isThere tool (starts ++ [⟨caller, (work caller).rule.engine, job.adapter.name⟩])
      (crew.put caller (.under job (.calling .installing))) := by
  refine ⟨logged.fit, ?_, fun start member its => ?_, fun other job' there name start member its => ?_⟩
  · rw [startsOf_append]
    by_cases name : job.adapter.name = tool
    · have new := logged.ready caller job here name
      rw [List.map_append, List.nodup_append]
      refine ⟨logged.once, by simp [startsOf, name], ?_⟩
      rintro engine member other last rfl
      obtain ⟨start, before, rfl⟩ := List.mem_map.mp member
      obtain ⟨before, its⟩ := List.mem_filter.mp before
      obtain ⟨_, last, same⟩ := List.mem_map.mp last
      obtain rfl := List.mem_singleton.mp (List.mem_filter.mp last).1
      exact new start before (by simpa using its) same.symm
    · simpa [startsOf, name] using logged.once
  · rcases List.mem_append.mp member with before | new
    · rcases logged.settled start before its with there | ⟨other, job', installing, name, engine⟩
      · exact .inl there
      · have apart : other ≠ caller := by
          rintro rfl
          rw [here] at installing
          cases installing
        exact .inr ⟨other, job', (put_progress_other _ apart _).trans installing, name, engine⟩
    · obtain rfl := List.mem_singleton.mp new
      exact .inr ⟨caller, job, put_progress_self .., its, rfl⟩
  · have apart : other ≠ caller := by
      rintro rfl
      rw [put_progress_self] at there
      cases there
    rw [put_progress_other _ apart] at there
    rcases List.mem_append.mp member with before | new
    · exact logged.ready other job' there name start before its
    · obtain rfl := List.mem_singleton.mp new
      exact fun same => apart (sound.under_exclusive there here rfl rfl same.symm)

theorem step (logged : Logged work fit isThere tool starts crew)
    (provided : Provided fit isThere work config tool) (sound : crew.Sound work config)
    (turn : Turn work crew caller start crew') :
    Logged work fit isThere tool (starts ++ start.toList) crew' := by
  rcases turn.starts_cases with rfl | ⟨job, here, rfl, rfl⟩
  · obtain ⟨fitting, stays⟩ := turn.spares provided sound logged.fit
    rw [Option.toList_none, List.append_nil]
    refine logged.carry (fun _ => turn.other) fitting stays (fun job here name => ?_) fun job now name => ?_
    · rw [turn.installing here, sound.stocked.config_eq]
      exact provided.installed _ (sound.listed caller job _ here) name caller _ logged.fit
    · rcases turn.before_install sound now with rfl | ⟨here, missing⟩
      · exact logged.ready caller job now name
      · exact logged.missing provided sound here name missing
  · exact logged.started sound here

end Logged

theorem play_logged (provided : Provided fit isThere work config tool) (sound : crew.Sound work config)
    (logged : Logged work fit isThere tool starts crew) (turns : List Nat) :
    Logged work fit isThere tool (starts ++ (crew.play work turns).1) (crew.play work turns).2 := by
  induction turns generalizing crew starts with
  | nil => simpa [play] using logged
  | cons caller rest ih =>
    have turn := crew.perform_turn work caller
    rw [play_cons, ← List.append_assoc]
    exact ih (sound.step turn) (logged.step provided sound turn)

/-! ### Once it is there -/

/-- The tool is there, and nobody has seen it missing under the lock. -/
structure Settled (fit isThere : W → Prop) (tool : String) (crew : Crew W) : Prop where
  fit : fit crew.world
  there : isThere crew.world
  nobody : ∀ caller job, crew.progress caller = .under job .install → job.adapter.name ≠ tool

theorem Settled.step (settled : Settled fit isThere tool crew)
    (provided : Provided fit isThere work config tool) (sound : crew.Sound work config)
    (turn : Turn work crew caller start crew') :
    Settled fit isThere tool crew' ∧ startsOf tool start.toList = [] := by
  obtain ⟨fitting, stays⟩ := turn.spares provided sound settled.fit
  refine ⟨⟨fitting, stays settled.there, fun other job now name => ?_⟩, ?_⟩
  · by_cases same : other = caller
    · subst same
      rcases turn.before_install sound now with rfl | ⟨here, missing⟩
      · exact settled.nobody other job now name
      · have listed := sound.listed other job _ here
        exact missing (provided.found _ listed name other _ settled.fit settled.there)
    · exact settled.nobody other job ((turn.other same).symm.trans now) name
  · rcases turn.starts_cases with rfl | ⟨job, here, rfl, -⟩
    · rfl
    · simpa [startsOf] using settled.nobody caller job here

/-- Once the tool is there, no installation of it is started any more. -/
theorem Settled.play (settled : Settled fit isThere tool crew)
    (provided : Provided fit isThere work config tool) (sound : crew.Sound work config) (turns : List Nat) :
    startsOf tool (crew.play work turns).1 = [] := by
  induction turns generalizing crew with
  | nil => rfl
  | cons caller rest ih =>
    have turn := crew.perform_turn work caller
    obtain ⟨settled', unstarted⟩ := settled.step provided sound turn
    rw [play_cons, startsOf_append, unstarted, ih settled' (sound.step turn)]
    rfl

/-! ### How many -/

/-- Whoever starts an installation has taken a step, and on behalf of its own engine. -/
theorem play_starts (sound : crew.Sound work config) (turns : List Nat) :
    ∀ start ∈ (crew.play work turns).1, start.caller ∈ turns ∧
      start.engine = (work start.caller).rule.engine ∧
      ∃ kind, EngineKind.find? start.engine = some kind := by
  induction turns generalizing crew with
  | nil => exact nofun
  | cons caller rest ih =>
    have turn := crew.perform_turn work caller
    intro start member
    rw [play_cons] at member
    rcases List.mem_append.mp member with now | later
    · rcases turn.starts_cases with unstarted | ⟨job, here, started, -⟩
      · simp [unstarted] at now
      · obtain rfl : start = ⟨caller, (work caller).rule.engine, job.adapter.name⟩ := by
          simpa [started] using now
        obtain ⟨inst, made, -⟩ := sound.engaged caller job.engine (by rw [here]; rfl)
        obtain ⟨kind, known, -⟩ := sound.stocked.instance_engine _ inst made
        exact ⟨List.mem_cons_self, rfl, kind, known⟩
    · obtain ⟨among, its⟩ := ih (sound.step turn) start later
      exact ⟨List.mem_cons_of_mem _ among, its⟩

omit [Clock W] in
theorem Logged.le_kinds (logged : Logged work fit isThere tool starts crew)
    (known : ∀ start ∈ starts, ∃ kind, EngineKind.find? start.engine = some kind) :
    (startsOf tool starts).length ≤ EngineKind.all.length := by
  have among : (startsOf tool starts).map Start.engine ⊆ EngineKind.all.map EngineKind.name := by
    intro engine member
    obtain ⟨start, its, rfl⟩ := List.mem_map.mp member
    obtain ⟨kind, found⟩ := known start (List.mem_filter.mp its).1
    exact List.mem_map.mpr ⟨kind, List.mem_of_find?_eq_some found, by simpa using List.find?_some found⟩
  simpa using (List.Nodup.subperm logged.once among).length_le

omit [Clock W] in
/-- Evaluations for one engine start the installation once. -/
theorem Logged.le_one (logged : Logged work fit isThere tool starts crew) (engine : String)
    (one : ∀ start ∈ startsOf tool starts, start.engine = engine) : (startsOf tool starts).length ≤ 1 := by
  have same : (startsOf tool starts).map Start.engine =
      List.replicate (startsOf tool starts).length engine :=
    List.eq_replicate_iff.mpr ⟨List.length_map .., by simpa using one⟩
  have once := logged.once
  rwa [same, List.nodup_replicate] at once

/-! ### In turn -/

/-- Nobody is in the middle of an evaluation. -/
def Quiet (crew : Crew W) : Prop :=
  ∀ caller, crew.progress caller = .fresh ∨ ∃ result, crew.progress caller = .done result

/-- A whole evaluation while nobody is in the middle of one. -/
theorem Quiet.play (quiet : crew.Quiet) (sound : crew.Sound work config) (caller : Nat) :
    (crew.play work (alone caller)).2.Quiet := by
  have free (other : Nat) : (crew.progress other).locks? = none := by
    rcases quiet other with here | ⟨_, here⟩ <;> rw [here] <;> rfl
  have enough : (crew.progress caller).left ≤ stepsAtMost := by
    rcases quiet caller with here | ⟨_, here⟩ <;> simp [here, Progress.left, stepsAtMost]
  rw [alone, sound.play_alone (fun other _ => free other) enough]
  intro other
  by_cases same : other = caller
  · subst same
    exact .inr ⟨_, replace_same ..⟩
  · simpa only [settle_other same] using quiet other

omit [Clock W] in
theorem Logged.settled_of_quiet (logged : Logged work fit isThere tool starts crew) (quiet : crew.Quiet)
    (nonempty : startsOf tool starts ≠ []) : Settled fit isThere tool crew := by
  obtain ⟨start, member⟩ := List.exists_mem_of_ne_nil _ nonempty
  obtain ⟨member, its⟩ := List.mem_filter.mp member
  have idle {caller : Nat} {job : Job W} {stage : Stage} : crew.progress caller ≠ .under job stage := by
    rcases quiet caller with here | ⟨_, here⟩ <;> rw [here] <;> exact nofun
  rcases logged.settled start member (by simpa using its) with there | ⟨_, _, here, -⟩
  · exact ⟨logged.fit, there, fun _ _ here => absurd here idle⟩
  · exact absurd here idle

/-- Of evaluations one after the other, the first that starts the installation is the last. -/
theorem Logged.in_turn (logged : Logged work fit isThere tool starts crew)
    (provided : Provided fit isThere work config tool) (sound : crew.Sound work config) (quiet : crew.Quiet)
    (few : (startsOf tool starts).length ≤ 1) (order : List Nat) :
    (startsOf tool (starts ++ (crew.play work (order.flatMap alone)).1)).length ≤ 1 := by
  induction order generalizing crew starts with
  | nil => simpa [Crew.play] using few
  | cons caller rest ih =>
    by_cases empty : startsOf tool starts = []
    · have logged' := play_logged provided sound logged (alone caller)
      rw [List.flatMap_cons, play_append, ← List.append_assoc]
      refine ih logged' (sound.play _) (quiet.play sound caller) ?_
      refine logged'.le_one (work caller).rule.engine fun start its => ?_
      rw [startsOf_append, empty, List.nil_append] at its
      obtain ⟨among, engine, -⟩ := play_starts sound _ start (List.mem_filter.mp its).1
      rw [engine, List.eq_of_mem_replicate among]
    · rw [startsOf_append, (logged.settled_of_quiet quiet empty).play provided sound, List.append_nil]
      exact few

/-! ### The installation of a tool in a run -/

/-- What holds of a run: its starts, and where it has left the evaluations. -/
structure Guarded (work : Nat → Assignment) (isThere : W → Prop) (tool : String) (starts : List Start)
    (crew : Crew W) : Prop where
  /-- No engine starts the installation twice. -/
  once : ((startsOf tool starts).map Start.engine).Nodup
  few : (startsOf tool starts).length ≤ EngineKind.all.length
  /-- What was started has put the tool there, or an evaluation of the engine is still about it. -/
  settled : ∀ start ∈ starts, start.tool = tool → isThere crew.world ∨
    ∃ caller job, crew.progress caller = .under job (.calling .installing) ∧ job.adapter.name = tool ∧
      (work caller).rule.engine = start.engine
  /-- One evaluation of an engine at most is between the second look and the end of the installation. -/
  exclusive : ∀ first second job job' stage stage', crew.progress first = .under job stage →
    crew.progress second = .under job' stage' → stage.isLocked = true → stage'.isLocked = true →
    (work first).rule.engine = (work second).rule.engine → first = second
  /-- While one evaluation of an engine is there, the others that miss a tool wait. -/
  waits : ∀ caller other job job' stage, crew.progress caller = .under job .wait →
    crew.progress other = .under job' stage → stage.isLocked = true →
    (work caller).rule.engine = (work other).rule.engine → crew.perform work caller = (none, crew)
  /-- Once the tool is there, and nobody has seen it missing under a lock, it is not installed again. -/
  spared : isThere crew.world →
    (∀ caller job, crew.progress caller = .under job .install → job.adapter.name ≠ tool) →
    ∀ turns, startsOf tool (crew.play work turns).1 = []
  /-- No evaluation waits for ever. -/
  finishes : ∀ caller, ∃ turns result, (crew.play work turns).2.progress caller = .done result
  /-- An evaluation that no other comes between is the evaluation as a whole. -/
  whole : ∀ caller, crew.progress caller = .fresh → (∀ other, (crew.progress other).locks? = none) →
    (crew.play work (alone caller)).2 =
      let r := Report.evaluate (work caller).context (work caller).rule (work caller).files
        (crew.registry, crew.world)
      ⟨r.2.1, r.2.2, fun _ => none, replace crew.progress caller (.done r.1)⟩

/-- Where the installation of a tool puts it there for good, each engine starts it once at most, whatever
evaluations there are and in whatever order they take their steps. So it is started once at most in a run
whose evaluations are all for one engine, and in a run, for whichever engines, of one evaluation after the
other. -/
theorem starts_guarded (provided : Provided fit isThere work config tool) {w : W} (fitting : fit w)
    (turns : List Nat) :
    let run := (begun (EngineRegistry.builtin config) w).play work turns
    Guarded work isThere tool run.1 run.2 ∧
      (∀ engine, (∀ caller ∈ turns, (work caller).rule.engine = engine) →
        (startsOf tool run.1).length ≤ 1) ∧
      ((∃ order : List Nat, turns = order.flatMap alone) → (startsOf tool run.1).length ≤ 1) := by
  intro run
  have sound₀ := begun_sound work (EngineRegistry.builtin_stocked config) w
  have sound : run.2.Sound work config := sound₀.play turns
  have logged₀ : Logged work fit isThere tool [] (begun (EngineRegistry.builtin config) w) :=
    begun_logged _ fitting
  have logged : Logged work fit isThere tool run.1 run.2 := play_logged provided sound₀ logged₀ turns
  have origin := play_starts sound₀ turns
  refine ⟨⟨logged.once, logged.le_kinds fun start member => (origin start member).2.2, logged.settled,
    fun _ _ _ _ _ _ here there => sound.under_exclusive here there, ?_,
    fun there nobody => Settled.play ⟨logged.fit, there, nobody⟩ provided sound, sound.finishes,
    fun _ fresh free => sound.play_fresh (fun other _ => free other) fresh⟩, ?_, ?_⟩
  · intro caller other job job' stage waiting there locked same
    have engine := sound.engine_eq (by rw [waiting]; rfl) (by rw [there]; rfl) same
    have held : run.2.holder job.engine = some other := by
      rw [sound.held, there, Progress.locks?, if_pos locked, engine]
    simp only [perform, waiting, held]
  · intro engine all
    refine logged.le_one engine fun start its => ?_
    obtain ⟨among, engine', -⟩ := origin start (List.mem_filter.mp its).1
    exact engine'.trans (all _ among)
  · rintro ⟨order, rfl⟩
    exact logged₀.in_turn provided sound₀ (fun _ => .inl rfl) (by simp [startsOf]) order

end Crew

/-! ### Two engines with one tool -/

namespace Bench

open Crew

/-- A linter that serves two engines. -/
def sharedLinter : Adapter Bench :=
  { linter with capabilities := ⟨"linter", ["javascript"], ["pattern", "ast"], "1"⟩ }

def sharedConfig : EngineConfig Bench := ⟨"tools", ⟨[sharedLinter]⟩⟩

/-- The third rule is for the other engine. -/
def sharedWork (caller : Nat) : Assignment :=
  ⟨.plain, if caller = 2 then rule "C" "ast" else rule "A" "pattern", ["a.js"]⟩

theorem shared_provided :
    Provided (fun _ => True) (fun bench => bench.installed = true) sharedWork sharedConfig "linter" := by
  have still {change : Bench → Bench} (same : ∀ bench, (change bench).installed = bench.installed) :
      Harmless (fun _ => True) (fun bench : Bench => bench.installed = true) change :=
    fun bench _ => ⟨trivial, fun there => (same bench).trans there⟩
  have one {adapter : Adapter Bench} (listed : adapter ∈ sharedConfig.adapters.adapters) :
      adapter = sharedLinter := List.mem_singleton.mp listed
  refine ⟨?_, ?_, ?_, still fun _ => rfl⟩
  · rintro _ listed - caller bench - there
    obtain rfl := one listed
    simp [sharedLinter, linter, adapter, there]
  · rintro _ listed - caller bench -
    obtain rfl := one listed
    rfl
  · rintro _ listed
    obtain rfl := one listed
    exact ⟨fun _ => still fun _ => rfl, fun _ _ _ => ⟨trivial, fun _ => rfl⟩, fun _ => still fun _ => rfl,
      fun _ _ => still fun _ => rfl, fun _ => still fun _ => rfl⟩

/-- Two rules of one engine and one of another, that all look for the linter before it is there: the second
waits for the first, and the third does not. -/
theorem bench_starts_guarded :
    Provided (fun _ => True) (fun bench => bench.installed = true) sharedWork sharedConfig "linter" ∧
      let run := (begun (EngineRegistry.builtin sharedConfig) ⟨0, false⟩).play sharedWork
        (List.replicate 6 0 ++ List.replicate 6 1 ++ List.replicate 6 2 ++ List.replicate 7 0 ++ [1, 1, 1])
      run.1 = [⟨0, "pattern", "linter"⟩, ⟨2, "ast", "linter"⟩] ∧
        Guarded sharedWork (fun bench => bench.installed = true) "linter" run.1 run.2 :=
  ⟨shared_provided, by decide +kernel, (starts_guarded shared_provided trivial _).1⟩

end Bench

/-- A machine with a package manager that makes the linter, and nothing else. -/
def Host.unequipped : Host :=
  let npm : Script :=
    ⟨[], [], 0, some ["repo", "tools", "node_modules", ".bin", "eslint"], none, none, true⟩
  ⟨⟨[(["repo"], .directory), (["repo", "bin"], .directory), (["repo", "bin", "npm"], .program npm)]⟩,
    ["repo"], ["/repo/bin"], "/home", 0, [], []⟩

/-- A pattern rule and a rule on syntax, both for the same linter. While the installation for the first is
under way, the evaluation of the second finds the lock of its own engine free and starts another, so the
package manager is called twice. Two workers come to that, and one does not. -/
theorem Crew.engines_install_twice :
    let box : Toolbox := ⟨"tools", .default⟩
    let config : EngineConfig Host := ⟨"tools", box.adapters⟩
    let rule := fun caller : Nat => Bench.rule "A" (if caller = 0 then "pattern" else "ast")
    let run := (begun (EngineRegistry.builtin config) .unequipped).play
      (fun caller => ⟨.plain, rule caller, ["a.js"]⟩)
      (List.replicate 6 0 ++ List.replicate 6 1 ++ List.replicate 7 0 ++ List.replicate 7 1)
    let fetch := ("/repo/bin/npm", ["install", "eslint@^8.0.0"])
    let calls := fun host : Host => host.calls.map fun call => (call.program, call.arguments)
    let called := fun workers => calls (Report.runBy workers .plain ["a.js"] ⟨none, none, []⟩
      [rule 0, rule 1] (EngineRegistry.builtin config, .unequipped)).2.2
    (box.eslint.check .plain (box.eslint.install .plain config.request .unequipped).2).1.isOk = true ∧
      run.1 = [⟨0, "pattern", "eslint"⟩, ⟨1, "ast", "eslint"⟩] ∧ calls run.2.world = [fetch, fetch] ∧
      (run.2.progress 0).left = 0 ∧ (run.2.progress 1).left = 0 ∧
      called 2 = [fetch, fetch] ∧ called 1 = [fetch] := by
  decide +kernel

end PolicyLint
