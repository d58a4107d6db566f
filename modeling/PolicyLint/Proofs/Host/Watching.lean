import Mathlib.Data.List.Basic
import PolicyLint.Host.Basic
/-!
Watched runs. The looks at a program form a stream without end, and the watch returns at one of them or
never. Main statement: what a run comes to is told by the looks that are the first of their kind; the watch
returns when the time is over at the latest, and nothing of the program is left behind.
-/
namespace PolicyLint

/-! ### One look -/

/-- A look after which the watch goes on. -/
structure Observation.Waits (deadline : Nat) (look : Observation) : Prop where
  running : look.sight = .running
  wanted : look.cancelled = false
  early : look.now < deadline

/-- What the watch returns at a look that does not let it go on. -/
inductive Observation.Settles (deadline : Nat) (look : Observation) : Watch → Prop where
  | ended (ending : Ending) (seen : look.sight = .ended ending) :
    Settles deadline look ⟨.ended ending, [], look.now⟩
  | lost (error : OsError) (seen : look.sight = .unknown error) :
    Settles deadline look (.givenUp (.lost error) look.now)
  | cancelled (running : look.sight = .running) (unwanted : look.cancelled = true) :
    Settles deadline look (.givenUp .cancelled look.now)
  | timedOut (running : look.sight = .running) (wanted : look.cancelled = false)
    (late : deadline ≤ look.now) : Settles deadline look (.givenUp .timedOut look.now)

/-- A look lets the watch go on, or settles what it returns. -/
theorem watch_single (deadline : Nat) (look : Observation) :
    (watch deadline [look] = none ∧ look.Waits deadline) ∨
      ∃ watched, watch deadline [look] = some watched ∧ look.Settles deadline watched := by
  simp only [watch]
  cases seen : look.sight with
  | ended ending => exact .inr ⟨_, rfl, .ended ending seen⟩
  | unknown error => exact .inr ⟨_, rfl, .lost error seen⟩
  | running =>
    cases unwanted : look.cancelled with
    | true => exact .inr ⟨_, rfl, .cancelled seen unwanted⟩
    | false =>
      by_cases late : deadline ≤ look.now
      · exact .inr ⟨_, by simp [late], .timedOut seen unwanted late⟩
      · exact .inl ⟨by simp [late], seen, unwanted, Nat.lt_of_not_le late⟩

theorem Observation.Settles.not_waits {deadline : Nat} {look : Observation} {watched : Watch}
    (settles : look.Settles deadline watched) : ¬ look.Waits deadline := by
  rintro ⟨running, wanted, early⟩
  cases settles with
  | ended ending seen => rw [running] at seen; cases seen
  | lost error seen => rw [running] at seen; cases seen
  | cancelled _ unwanted => rw [wanted] at unwanted; cases unwanted
  | timedOut _ _ late => exact Nat.not_le.mpr early late

theorem watch_single_eq_none_iff {deadline : Nat} {look : Observation} :
    watch deadline [look] = none ↔ look.Waits deadline := by
  rcases watch_single deadline look with ⟨unfinished, waits⟩ | ⟨watched, finished, settles⟩
  · exact iff_of_true unfinished waits
  · exact iff_of_false (by rw [finished]; exact nofun) settles.not_waits

theorem Observation.Settles.watch_single {deadline : Nat} {look : Observation} {watched : Watch}
    (settles : look.Settles deadline watched) : watch deadline [look] = some watched := by
  cases settles with
  | ended ending seen => simp [watch, seen]
  | lost error seen => simp [watch, seen]
  | cancelled running unwanted => simp [watch, running, unwanted]
  | timedOut running wanted late => simp [watch, running, wanted, late]

theorem watch_single_eq_some_iff {deadline : Nat} {look : Observation} {watched : Watch} :
    watch deadline [look] = some watched ↔ look.Settles deadline watched := by
  refine ⟨fun returned => ?_, fun settles => settles.watch_single⟩
  rcases watch_single deadline look with ⟨unfinished, -⟩ | ⟨watched', finished, settles⟩
  · rw [unfinished] at returned
    cases returned
  · obtain rfl := Option.some.inj (returned.symm.trans finished)
    exact settles

theorem watch_cons (deadline : Nat) (look : Observation) (rest : List Observation) :
    watch deadline (look :: rest) = (watch deadline [look]).or (watch deadline rest) := by
  simp only [watch]
  cases look.sight with
  | ended ending => rfl
  | unknown error => rfl
  | running => grind

theorem watch_append (deadline : Nat) (first second : List Observation) :
    watch deadline (first ++ second) = (watch deadline first).or (watch deadline second) := by
  induction first with
  | nil => rfl
  | cons look rest ih =>
    rw [List.cons_append, watch_cons, ih, watch_cons deadline look rest, Option.or_assoc]

/-! ### Streams of looks -/

/-- Looks at a program, one after the other and without end. -/
abbrev Looks := Nat → Observation

namespace Looks

variable (looks : Looks) (deadline : Nat)

/-- The looks before one of them. -/
def before (n : Nat) : List Observation :=
  (List.range n).map looks

theorem before_succ (n : Nat) : looks.before (n + 1) = looks.before n ++ [looks n] := by
  simp [before, List.range_succ]

/-- The watch goes on up to a look, and returns at it. -/
def ReturnsAt (n : Nat) (watched : Watch) : Prop :=
  watch deadline (looks.before n) = none ∧ watch deadline (looks.before (n + 1)) = some watched

/-- The first look of a kind. -/
def IsFirst (kind : Observation → Prop) (n : Nat) : Prop :=
  kind (looks n) ∧ ∀ k < n, ¬ kind (looks k)

variable {looks deadline}

theorem watch_before_eq_none_iff {n : Nat} :
    watch deadline (looks.before n) = none ↔ ∀ k < n, (looks k).Waits deadline := by
  induction n with
  | zero => exact iff_of_true rfl fun k impossible => absurd impossible (Nat.not_lt_zero k)
  | succ n ih =>
    rw [before_succ, watch_append, Option.or_eq_none_iff, ih, watch_single_eq_none_iff,
      Nat.forall_lt_succ_right]

theorem returnsAt_iff {n : Nat} {watched : Watch} : looks.ReturnsAt deadline n watched ↔
    (∀ k < n, (looks k).Waits deadline) ∧ (looks n).Settles deadline watched := by
  rw [ReturnsAt, before_succ, watch_append, watch_before_eq_none_iff]
  refine and_congr_right fun waits => ?_
  rw [watch_before_eq_none_iff.mpr waits, Option.none_or, watch_single_eq_some_iff]

/-- Where the watch cannot go on for ever, it returns. -/
theorem exists_returnsAt {k : Nat} (settled : ¬ (looks k).Waits deadline) :
    ∃ n ≤ k, ∃ watched, looks.ReturnsAt deadline n watched := by
  induction k using Nat.strongRecOn with
  | ind k ih =>
    by_cases waits : ∀ j < k, (looks j).Waits deadline
    · rcases watch_single deadline (looks k) with ⟨-, waits'⟩ | ⟨watched, -, settles⟩
      · exact absurd waits' settled
      · exact ⟨k, Nat.le_refl k, watched, returnsAt_iff.mpr ⟨waits, settles⟩⟩
    · push Not at waits
      obtain ⟨j, earlier, settled'⟩ := waits
      obtain ⟨n, le, returned⟩ := ih j earlier settled'
      exact ⟨n, Nat.le_trans le (Nat.le_of_lt earlier), returned⟩

theorem ReturnsAt.unique {n n' : Nat} {watched watched' : Watch}
    (one : looks.ReturnsAt deadline n watched) (other : looks.ReturnsAt deadline n' watched') :
    n = n' ∧ watched = watched' := by
  have here : n = n' := by
    rw [returnsAt_iff] at one other
    rcases Nat.lt_trichotomy n n' with earlier | same | later
    · exact absurd (other.1 n earlier) one.2.not_waits
    · exact same
    · exact absurd (one.1 n' later) other.2.not_waits
  subst here
  exact ⟨rfl, Option.some.inj (one.2.symm.trans other.2)⟩

/-- What was returned stands, however many looks follow. -/
theorem ReturnsAt.later {n m : Nat} {watched : Watch} (returned : looks.ReturnsAt deadline n watched)
    (le : n + 1 ≤ m) : watch deadline (looks.before m) = some watched := by
  induction le with
  | refl => exact returned.2
  | step _ ih => rw [before_succ, watch_append, ih, Option.some_or]

end Looks

/-! ### What is left of a program -/

/-- A program that was started: it is alive, it is dead and nobody has asked for its exit code, or there is
nothing left of it. -/
inductive Remains where
  | alive | dead | gone
deriving DecidableEq, Repr

/-- To wait for a program is to take its exit code, which only a dead one has. -/
def Cleanup.act : Cleanup → Remains → Remains
  | .kill, .alive => .dead
  | .reap, .dead => .gone
  | _, remains => remains

/-- What there may be of a program after a look. A look that shows its end has taken the exit code; one that
shows it running may be followed by its end at once. -/
def Sight.Leaves : Sight → Remains → Prop
  | .ended _, remains => remains = .gone
  | .running, remains => remains ≠ .gone
  | .unknown _, _ => True

theorem givenUp_leaves_nothing (verdict : Verdict) (now : Nat) (remains : Remains) :
    (Watch.givenUp verdict now).cleanup.foldl (fun left step => step.act left) remains = .gone := by
  cases remains <;> rfl

theorem Observation.Settles.leaves_nothing {deadline : Nat} {look : Observation} {watched : Watch}
    (settles : look.Settles deadline watched) {remains : Remains} (leaves : look.sight.Leaves remains) :
    watched.cleanup.foldl (fun left step => step.act left) remains = .gone := by
  cases settles with
  | ended ending seen => rwa [seen] at leaves
  | lost | cancelled | timedOut => exact givenUp_leaves_nothing _ _ remains

/-! ### Results -/

/-- A look settles what a run comes to: an exit code, or a failure. -/
def Observation.ComesTo (deadline : Nat) (program : String) (started : Nat) (look : Observation)
    (result : Except Failure Int) : Prop :=
  ∃ watched, look.Settles deadline watched ∧ watched.outcome program started = result

namespace Observation

variable {deadline : Nat} {program : String} {started : Nat} {look : Observation}

theorem comesTo_ok_iff {code : Int} : look.ComesTo deadline program started (.ok code) ↔
    ∃ ending, look.sight = .ended ending ∧ ending.code = code := by
  constructor
  · rintro ⟨watched, settles, outcome⟩
    cases settles with
    | ended ending seen => exact ⟨ending, seen, Except.ok.inj outcome⟩
    | lost | cancelled | timedOut => cases outcome
  · rintro ⟨ending, seen, rfl⟩
    exact ⟨_, .ended ending seen, rfl⟩

theorem comesTo_cancelled_iff : look.ComesTo deadline program started (.error (.cancelled program)) ↔
    look.sight = .running ∧ look.cancelled = true := by
  constructor
  · rintro ⟨watched, settles, outcome⟩
    cases settles with
    | cancelled running unwanted => exact ⟨running, unwanted⟩
    | ended | lost | timedOut => cases outcome
  · rintro ⟨running, unwanted⟩
    exact ⟨_, .cancelled running unwanted, rfl⟩

theorem comesTo_timedOut_iff {after : Duration} :
    look.ComesTo deadline program started (.error (.timedOut program after)) ↔
      look.sight = .running ∧ look.cancelled = false ∧ deadline ≤ look.now ∧
        after = look.now - started := by
  constructor
  · rintro ⟨watched, settles, outcome⟩
    cases settles with
    | timedOut running wanted late =>
      cases outcome
      exact ⟨running, wanted, late, rfl⟩
    | ended | lost | cancelled => cases outcome
  · rintro ⟨running, wanted, late, rfl⟩
    exact ⟨_, .timedOut running wanted late, rfl⟩

theorem comesTo_io_iff {message : String} :
    look.ComesTo deadline program started (.error (.io message)) ↔
      ∃ error, look.sight = .unknown error ∧ error.message = message := by
  constructor
  · rintro ⟨watched, settles, outcome⟩
    cases settles with
    | lost error seen =>
      cases outcome
      exact ⟨error, seen, rfl⟩
    | ended | cancelled | timedOut => cases outcome
  · rintro ⟨error, seen, rfl⟩
    exact ⟨_, .lost error seen, rfl⟩

/-- A program that is given up is killed and then waited for, and no other is. -/
theorem Settles.givenUp {watched : Watch} (settles : look.Settles deadline watched)
    (program : String) (started : Nat) :
    (∃ failure, watched.outcome program started = .error failure ∧
      (failure = .cancelled program ∨ (∃ after, failure = .timedOut program after) ∨
        ∃ message, failure = .io message) ∧ watched.cleanup = [.kill, .reap]) ∨
    (∃ code, watched.outcome program started = .ok code) ∧ watched.cleanup = [] := by
  cases settles with
  | ended ending seen => exact .inr ⟨⟨_, rfl⟩, rfl⟩
  | lost error seen => exact .inl ⟨_, rfl, .inr (.inr ⟨_, rfl⟩), rfl⟩
  | cancelled running unwanted => exact .inl ⟨_, rfl, .inl rfl, rfl⟩
  | timedOut running wanted late => exact .inl ⟨_, rfl, .inr (.inl ⟨_, rfl⟩), rfl⟩

end Observation

/-! ### Runs -/

/-- The time of a run is over: that of its context, or the run's own. -/
def Context.RunsOut (context : Context) (started : Nat) (timeout : Duration) (now : Nat) : Prop :=
  (∃ deadline ∈ context.deadline, deadline ≤ now) ∨ started + timeout ≤ now

theorem deadlineOf_le_iff {context : Context} {started : Nat} {timeout : Duration} {now : Nat} :
    deadlineOf context started timeout ≤ now ↔ context.RunsOut started timeout now := by
  unfold deadlineOf Context.RunsOut
  cases context.deadline with
  | none => simp
  | some deadline =>
    simp only [Option.mem_some_iff, exists_eq_left']
    omega

namespace Looks

/-- The watched run of a program comes to a result at a look. -/
def Gives (looks : Looks) (context : Context) (timeout : Duration) (program : String) (started n : Nat)
    (result : Except Failure Int) : Prop :=
  ∃ watched, looks.ReturnsAt (deadlineOf context started timeout) n watched ∧
    watched.outcome program started = result

/-- What watched runs come to, told by the looks alone. -/
structure Classified (looks : Looks) (context : Context) (timeout : Duration) (program : String)
    (started : Nat) : Prop where
  /-- The exit code counts before all else, be the run called off by then or out of time. -/
  ended : ∀ n code, looks.Gives context timeout program started n (.ok code) ↔
    ((∃ exit : Nat, (looks n).sight = .ended (.exited exit) ∧ code = exit) ∨
      (looks n).sight = .ended .signalled ∧ code = -1) ∧
    ∀ k < n, (looks k).sight = .running ∧ (looks k).cancelled = false ∧
      ¬ context.RunsOut started timeout (looks k).now
  /-- A look that finds the run called off may find it out of time as well. -/
  cancelled : ∀ n, looks.Gives context timeout program started n (.error (.cancelled program)) ↔
    looks.IsFirst (fun look => look.cancelled = true) n ∧ (∀ k ≤ n, (looks k).sight = .running) ∧
      ∀ k < n, ¬ context.RunsOut started timeout (looks k).now
  timedOut : ∀ n after,
    looks.Gives context timeout program started n (.error (.timedOut program after)) ↔
      looks.IsFirst (fun look => context.RunsOut started timeout look.now) n ∧
        (∀ k ≤ n, (looks k).sight = .running ∧ (looks k).cancelled = false) ∧
        after = (looks n).now - started
  lost : ∀ n message, looks.Gives context timeout program started n (.error (.io message)) ↔
    (∃ error, (looks n).sight = .unknown error ∧ error.message = message) ∧
      ∀ k < n, (looks k).sight = .running ∧ (looks k).cancelled = false ∧
        ¬ context.RunsOut started timeout (looks k).now
  failures : ∀ n failure, looks.Gives context timeout program started n (.error failure) →
    failure = .cancelled program ∨ (∃ after, failure = .timedOut program after) ∨
      ∃ message, failure = .io message
  once : ∀ n result n' result', looks.Gives context timeout program started n result →
    looks.Gives context timeout program started n' result' → n = n' ∧ result = result'
  returns : ∀ k, context.RunsOut started timeout (looks k).now →
    ∃ n ≤ k, ∃ result, looks.Gives context timeout program started n result
  /-- A run that is given up kills its program and waits for it; no run leaves anything behind. -/
  cleanup : ∀ n watched, looks.ReturnsAt (deadlineOf context started timeout) n watched →
    (∀ failure, watched.outcome program started = .error failure → watched.cleanup = [.kill, .reap]) ∧
    ∀ remains, (looks n).sight.Leaves remains →
      watched.cleanup.foldl (fun left step => step.act left) remains = .gone

variable {looks : Looks} {context : Context} {timeout : Duration} {program : String} {started n : Nat}

theorem gives_iff {result : Except Failure Int} : looks.Gives context timeout program started n result ↔
    (looks n).ComesTo (deadlineOf context started timeout) program started result ∧
      ∀ k < n, (looks k).Waits (deadlineOf context started timeout) := by
  simp only [Gives, returnsAt_iff, and_assoc, exists_and_left, Observation.ComesTo]
  exact and_comm

theorem waits_iff {look : Observation} : look.Waits (deadlineOf context started timeout) ↔
    look.sight = .running ∧ look.cancelled = false ∧ ¬ context.RunsOut started timeout look.now := by
  rw [← deadlineOf_le_iff, Nat.not_le]
  exact ⟨fun ⟨running, wanted, early⟩ => ⟨running, wanted, early⟩,
    fun ⟨running, wanted, early⟩ => ⟨running, wanted, early⟩⟩

theorem comesTo_ok_iff_exit {deadline : Nat} {look : Observation} {code : Int} :
    look.ComesTo deadline program started (.ok code) ↔
      (∃ exit : Nat, look.sight = .ended (.exited exit) ∧ code = exit) ∨
        look.sight = .ended .signalled ∧ code = -1 := by
  rw [Observation.comesTo_ok_iff]
  constructor
  · rintro ⟨ending, seen, rfl⟩
    cases ending with
    | exited exit => exact .inl ⟨exit, seen, rfl⟩
    | signalled => exact .inr ⟨seen, rfl⟩
  · rintro (⟨exit, seen, rfl⟩ | ⟨seen, rfl⟩)
    · exact ⟨_, seen, rfl⟩
    · exact ⟨_, seen, rfl⟩

theorem gives_ok_iff {code : Int} : looks.Gives context timeout program started n (.ok code) ↔
    ((∃ exit : Nat, (looks n).sight = .ended (.exited exit) ∧ code = exit) ∨
      (looks n).sight = .ended .signalled ∧ code = -1) ∧
    ∀ k < n, (looks k).sight = .running ∧ (looks k).cancelled = false ∧
      ¬ context.RunsOut started timeout (looks k).now := by
  rw [gives_iff, comesTo_ok_iff_exit]
  simp only [waits_iff]

theorem gives_cancelled_iff : looks.Gives context timeout program started n (.error (.cancelled program)) ↔
    looks.IsFirst (fun look => look.cancelled = true) n ∧ (∀ k ≤ n, (looks k).sight = .running) ∧
      ∀ k < n, ¬ context.RunsOut started timeout (looks k).now := by
  rw [gives_iff, Observation.comesTo_cancelled_iff]
  simp only [waits_iff]
  constructor
  · rintro ⟨⟨running, unwanted⟩, waits⟩
    refine ⟨⟨unwanted, fun k earlier => by simp [waits k earlier]⟩, fun k within => ?_,
      fun k earlier => (waits k earlier).2.2⟩
    rcases Nat.lt_or_eq_of_le within with earlier | rfl
    · exact (waits k earlier).1
    · exact running
  · rintro ⟨⟨unwanted, first⟩, running, early⟩
    exact ⟨⟨running n (Nat.le_refl n), unwanted⟩, fun k earlier =>
      ⟨running k (Nat.le_of_lt earlier), Bool.eq_false_iff.mpr (first k earlier), early k earlier⟩⟩

theorem gives_timedOut_iff {after : Duration} :
    looks.Gives context timeout program started n (.error (.timedOut program after)) ↔
      looks.IsFirst (fun look => context.RunsOut started timeout look.now) n ∧
        (∀ k ≤ n, (looks k).sight = .running ∧ (looks k).cancelled = false) ∧
        after = (looks n).now - started := by
  rw [gives_iff, Observation.comesTo_timedOut_iff, deadlineOf_le_iff]
  simp only [waits_iff]
  constructor
  · rintro ⟨⟨running, wanted, late, span⟩, waits⟩
    refine ⟨⟨late, fun k earlier => (waits k earlier).2.2⟩, fun k within => ?_, span⟩
    rcases Nat.lt_or_eq_of_le within with earlier | rfl
    · exact ⟨(waits k earlier).1, (waits k earlier).2.1⟩
    · exact ⟨running, wanted⟩
  · rintro ⟨⟨late, first⟩, running, span⟩
    obtain ⟨here, wanted⟩ := running n (Nat.le_refl n)
    exact ⟨⟨here, wanted, late, span⟩, fun k earlier =>
      ⟨(running k (Nat.le_of_lt earlier)).1, (running k (Nat.le_of_lt earlier)).2, first k earlier⟩⟩

theorem gives_io_iff {message : String} :
    looks.Gives context timeout program started n (.error (.io message)) ↔
      (∃ error, (looks n).sight = .unknown error ∧ error.message = message) ∧
        ∀ k < n, (looks k).sight = .running ∧ (looks k).cancelled = false ∧
          ¬ context.RunsOut started timeout (looks k).now := by
  rw [gives_iff, Observation.comesTo_io_iff]
  simp only [waits_iff]

/-- What fails is called off, out of time or lost, and its program is cleaned up. -/
theorem ReturnsAt.failed {watched : Watch}
    (returned : looks.ReturnsAt (deadlineOf context started timeout) n watched) {failure : Failure}
    (outcome : watched.outcome program started = .error failure) :
    (failure = .cancelled program ∨ (∃ after, failure = .timedOut program after) ∨
      ∃ message, failure = .io message) ∧ watched.cleanup = [.kill, .reap] := by
  rcases (returnsAt_iff.mp returned).2.givenUp program started with
    ⟨failure', outcome', kind, cleanup⟩ | ⟨⟨code, outcome'⟩, -⟩
  · obtain rfl := Except.error.inj (outcome.symm.trans outcome')
    exact ⟨kind, cleanup⟩
  · rw [outcome] at outcome'
    cases outcome'

theorem exists_gives {k : Nat} (late : context.RunsOut started timeout (looks k).now) :
    ∃ n ≤ k, ∃ result, looks.Gives context timeout program started n result := by
  have settled : ¬ (looks k).Waits (deadlineOf context started timeout) :=
    fun waits => (waits_iff.mp waits).2.2 late
  obtain ⟨n, within, watched, returned⟩ := exists_returnsAt settled
  exact ⟨n, within, _, watched, returned, rfl⟩

/-- The watch returns at the first look that settles the matter: it hands on an exit code, else it finds the
run called off, else out of time, and a look that fails is a failure. It does so for every stream of looks,
whatever becomes of the flag and the clock, and returns for every one whose clock reaches a deadline. -/
theorem watch_classified (looks : Looks) (context : Context) (timeout : Duration) (program : String)
    (started : Nat) : looks.Classified context timeout program started where
  ended _ _ := gives_ok_iff
  cancelled _ := gives_cancelled_iff
  timedOut _ _ := gives_timedOut_iff
  lost _ _ := gives_io_iff
  failures n failure gives := by
    obtain ⟨watched, returned, outcome⟩ := gives
    exact (returned.failed outcome).1
  once n result n' result' gives gives' := by
    obtain ⟨watched, returned, rfl⟩ := gives
    obtain ⟨watched', returned', rfl⟩ := gives'
    obtain ⟨rfl, rfl⟩ := returned.unique returned'
    exact ⟨rfl, rfl⟩
  returns _ late := exists_gives late
  cleanup n watched returned := by
    have settles := (returnsAt_iff.mp returned).2
    exact ⟨fun failure outcome => (returned.failed outcome).2,
      fun remains leaves => settles.leaves_nothing leaves⟩

end Looks

/-! ### The executor -/

namespace Executor

/-- The looks at a program that runs by a script. -/
def looksAt (context : Context) (script : Script) (started : Nat) : Looks := fun k =>
  let now := started + k * pollInterval
  ⟨if started + lasting script ≤ now then .ended (endingOf script) else .running,
    context.isCancelled now, now⟩

/-- How many looks it takes until a script has ended. -/
def enough (script : Script) : Nat :=
  lasting script / pollInterval + 1

theorem observations_eq (context : Context) (script : Script) (started : Nat) :
    observations context script started = (looksAt context script started).before (enough script + 1) :=
  rfl

theorem looksAt_enough (context : Context) (script : Script) (started : Nat) :
    (looksAt context script started (enough script)).sight = .ended (endingOf script) := by
  have reached : started + lasting script ≤ started + enough script * pollInterval := by
    have := Nat.lt_div_mul_add (a := lasting script) (b := pollInterval) (by decide)
    simp only [enough, Nat.add_mul, Nat.one_mul]
    omega
  exact if_pos reached

/-- Every run of the executor is a watched run, and the watch returns before the looks have run out. -/
theorem run_gives (executor : Executor) (context : Context) (program : String) (script : Script)
    (call : Call) (host : Host) :
    let ran := executor.run context program script call host
    ∃ n watched, (looksAt context script host.now).ReturnsAt
        (deadlineOf context host.now executor.timeout) n watched ∧
      ran.1 = (watched.outcome program host.now).map (outputOf script) ∧ ran.2.now = watched.now := by
  intro ran
  have settled : ¬ (looksAt context script host.now (enough script)).Waits
      (deadlineOf context host.now executor.timeout) := by
    intro waits
    have running := waits.running
    rw [looksAt_enough] at running
    cases running
  obtain ⟨n, within, watched, returned⟩ := Looks.exists_returnsAt settled
  have found : watch (deadlineOf context host.now executor.timeout)
      (observations context script host.now) = some watched := by
    rw [observations_eq]
    exact returned.later (Nat.succ_le_succ within)
  refine ⟨n, watched, returned, ?_, ?_⟩ <;> simp only [ran, run, found, Option.getD_some]

end Executor
end PolicyLint
