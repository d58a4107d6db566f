import Mathlib.Data.List.Induction
import PolicyLint.Proofs.Action
import PolicyLint.Proofs.Engine.Interleaving
import PolicyLint.Proofs.Text.Order
/-!
What callers that share a registry of engines can rely on, in whatever order their moves come. Every
engine there is was made by the first factory under its name, and between two closings all requests for
a name that are answered with an engine are answered with the same one.
-/
namespace PolicyLint.EngineRegistry

/-- What comes of a factory in a world, and of the initialisation of what it gives. -/
def Produces (config : EngineConfig W) (factory : EngineFactory W) (w : W) (engine : Engine W) : Prop :=
  ∃ init w', factory w = (.ok init, w') ∧ (init config w').1 = .ok engine

theorem mapError_eq_ok_iff {result : Except Failure α} {wrap : Failure → Failure} {a : α} :
    result.mapError wrap = .ok a ↔ result = .ok a := by
  cases result <;> simp [Except.mapError]

theorem make_eq_ok_iff {registry : EngineRegistry W} {name : String} {factory : EngineFactory W} {w : W}
    {engine : Engine W} :
    (registry.make name factory w).1 = .ok engine ↔ Produces registry.config factory w engine := by
  rw [make, Action.adapt_apply, mapError_eq_ok_iff]
  constructor
  · exact Action.bind_eq_ok
  · rintro ⟨init, w', ran, made⟩
    rw [Action.bind_apply, ran]
    exact made

/-- The factory of the first registration under a name. -/
def firstFactory? (moves : List (Move W)) (name : String) : Option (EngineFactory W) :=
  moves.findSome? fun
    | .register taken factory => if taken = name then some factory else none
    | _ => none

theorem firstFactory?_append (before behind : List (Move W)) (name : String) :
    firstFactory? (before ++ behind) name =
      (firstFactory? before name).or (firstFactory? behind name) :=
  List.findSome?_append

theorem firstFactory?_register (taken name : String) (factory : EngineFactory W) :
    firstFactory? [.register taken factory] name = if taken = name then some factory else none := by
  unfold firstFactory?
  rw [List.findSome?_cons]
  split <;> simp_all

theorem firstFactory?_isSome_iff {moves : List (Move W)} {name : String} :
    (firstFactory? moves name).isSome = true ↔ ∃ factory, .register name factory ∈ moves := by
  simp only [firstFactory?, List.findSome?_isSome_iff]
  constructor
  · rintro ⟨move, member, found⟩
    cases move with
    | register taken factory =>
      obtain rfl : taken = name := by
        by_contra other
        simp [other] at found
      exact ⟨factory, member⟩
    | _ => cases found
  · rintro ⟨factory, member⟩
    exact ⟨_, member, by simp⟩

theorem isSome_lookup_iff {entries : List (String × α)} {name : String} :
    (entries.lookup name).isSome = true ↔ name ∈ entries.map Prod.fst := by
  rw [List.lookup_isSome_iff, List.mem_map]
  exact exists_congr fun entry => and_congr_right fun _ => beq_iff_eq.trans eq_comm

/-- A new entry under a name that has none. -/
theorem nodup_names_concat {entries : List (String × α)} (once : (entries.map Prod.fst).Nodup)
    {name : String} (absent : entries.lookup name = none) (value : α) :
    ((entries ++ [(name, value)]).map Prod.fst).Nodup := by
  rw [List.map_append, List.nodup_append]
  refine ⟨once, by simp, ?_⟩
  rintro old member new same rfl
  obtain rfl := List.mem_singleton.mp same
  rw [← isSome_lookup_iff, absent] at member
  cases member

namespace Floor

/-- Where moves lead to from a registry that is empty. -/
def reached (config : EngineConfig W) (w : W) (moves : List (Move W)) : Floor W :=
  ((opened config w).play moves).2

theorem reached_concat (config : EngineConfig W) (w : W) (moves : List (Move W)) (move : Move W) :
    reached config w (moves ++ [move]) = ((reached config w moves).perform move).2 := by
  rw [reached, play_append]
  rfl

/-! ### The registry -/

/-- A registry that moves lead to. -/
structure Sound (config : EngineConfig W) (w : W) (moves : List (Move W)) (registry : EngineRegistry W) :
    Prop where
  config_eq : registry.config = config
  first : ∀ name, registry.factories.lookup name = firstFactory? moves name
  names_once : (registry.factories.map Prod.fst).Nodup
  cached_once : (registry.instances.map Prod.fst).Nodup
  produced : ∀ name inst, (name, inst) ∈ registry.instances →
    ∃ factory before later, firstFactory? moves name = some factory ∧ moves = before ++ later ∧
      Produces config factory (reached config w before).world inst.engine

variable {config : EngineConfig W} {w : W} {moves : List (Move W)} {registry : EngineRegistry W}

theorem Sound.produced_later (sound : Sound config w moves registry) (move : Move W) {name : String}
    {inst : EngineInstance W} (member : (name, inst) ∈ registry.instances) :
    ∃ factory before later, firstFactory? (moves ++ [move]) name = some factory ∧
      moves ++ [move] = before ++ later ∧
      Produces config factory (reached config w before).world inst.engine := by
  obtain ⟨factory, before, later, first, split, produces⟩ := sound.produced name inst member
  refine ⟨factory, before, later ++ [move], ?_, by rw [split, List.append_assoc], produces⟩
  rw [firstFactory?_append, first, Option.some_or]

theorem Sound.first_later (sound : Sound config w moves registry) {move : Move W}
    (taken : ∀ name factory, move = .register name factory → registry.isRegistered name = true)
    (name : String) : registry.factories.lookup name = firstFactory? (moves ++ [move]) name := by
  rw [firstFactory?_append, ← sound.first]
  cases known : registry.factories.lookup name with
  | some factory => rfl
  | none =>
    cases move with
    | register taken' factory =>
      have other : taken' ≠ name := by
        rintro rfl
        simpa [isRegistered, known] using taken taken' factory rfl
      rw [firstFactory?_register, if_neg other, Option.none_or]
    | _ => rfl

theorem Sound.step {floor : Floor W} (here : floor = reached config w moves)
    (sound : Sound config w moves floor.registry) {move : Move W} {event : Event W}
    (change : Change floor move event registry) : Sound config w (moves ++ [move]) registry := by
  cases change with
  | unchanged taken _ _ _ =>
    exact ⟨sound.config_eq, sound.first_later taken, sound.names_once, sound.cached_once,
      fun _ _ => sound.produced_later move⟩
  | @registered name factory free =>
    have absent : floor.registry.factories.lookup name = none := by
      simpa [isRegistered] using free
    refine ⟨sound.config_eq, fun asked => ?_, nodup_names_concat sound.names_once absent factory,
      sound.cached_once, fun _ _ => sound.produced_later _⟩
    rw [List.lookup_append, firstFactory?_append, sound.first, firstFactory?_register]
    by_cases same : asked = name
    · simp [same]
    · simp [Ne.symm same, List.lookup_cons, beq_false_of_ne same]
  | @made caller name factory engine after absent known made =>
    have later : ∀ asked, floor.registry.factories.lookup asked =
        firstFactory? (moves ++ [.settle caller]) asked := sound.first_later (by rintro _ _ ⟨⟩)
    refine ⟨sound.config_eq, later, sound.names_once,
      nodup_names_concat sound.cached_once absent _, fun asked inst member => ?_⟩
    rcases List.mem_append.mp member with old | new
    · exact sound.produced_later _ old
    · obtain ⟨rfl, rfl⟩ := Prod.mk.inj (List.mem_singleton.mp new)
      have produces : Produces floor.registry.config factory floor.world engine :=
        make_eq_ok_iff.mp (by rw [made])
      rw [sound.config_eq, here] at produces
      exact ⟨factory, moves, [.settle caller], (later _).symm.trans known, rfl, produces⟩
  | emptied =>
    exact ⟨sound.config_eq, sound.first_later (by rintro _ _ ⟨⟩), sound.names_once, List.nodup_nil,
      fun _ _ member => absurd member List.not_mem_nil⟩

theorem reached_sound (config : EngineConfig W) (w : W) (moves : List (Move W)) :
    Sound config w moves (reached config w moves).registry := by
  induction moves using List.reverseRecOn with
  | nil => exact ⟨rfl, fun _ => rfl, List.nodup_nil, List.nodup_nil,
      fun _ _ member => absurd member List.not_mem_nil⟩
  | append_singleton moves move ih =>
    rw [reached_concat]
    exact ih.step rfl (perform_change _ move)

/-! ### Between two closings -/

section

variable {floor : Floor W} {move : Move W} {event : Event W} {name : String} {inst : EngineInstance W}

theorem Change.keeps (change : Change floor move event registry) (goesOn : move ≠ .closeAll)
    (there : floor.registry.instances.lookup name = some inst) :
    registry.instances.lookup name = some inst := by
  cases change with
  | unchanged | registered => exact there
  | made => simp [keep, List.lookup_append, there]
  | emptied => exact absurd rfl goesOn

theorem Change.gives (change : Change floor move event registry)
    (given : event.given? = some (name, inst)) : registry.instances.lookup name = some inst := by
  cases change with
  | unchanged _ _ there _ => exact there name inst given
  | registered | emptied => cases given
  | made absent =>
    cases given
    simp [keep, List.lookup_append, absent]

theorem Change.came (change : Change floor move event registry)
    (there : registry.instances.lookup name = some inst) :
    event.built? = some (name, inst) ∨ floor.registry.instances.lookup name = some inst := by
  cases change with
  | unchanged | registered => exact .inr there
  | @made _ made _ engine =>
    rw [keep, List.lookup_append] at there
    cases old : floor.registry.instances.lookup name with
    | some found =>
      rw [old, Option.some_or] at there
      exact .inr there
    | none =>
      rw [old, Option.none_or] at there
      by_cases same : name = made
      · subst same
        obtain rfl : ⟨floor.registry.made, engine⟩ = inst := by simpa using there
        exact .inl rfl
      · simp [List.lookup_cons, beq_false_of_ne same] at there
  | emptied => cases there

theorem Change.builds (change : Change floor move event registry)
    (built : event.built? = some (name, inst)) :
    floor.registry.instances.lookup name = none ∧ registry.instances.lookup name = some inst := by
  cases change with
  | unchanged _ unbuilt _ _ =>
    rw [unbuilt] at built
    cases built
  | registered | emptied => cases built
  | made absent =>
    cases built
    exact ⟨absent, by simp [keep, List.lookup_append, absent]⟩

end

theorem play_keeps (floor : Floor W) {moves : List (Move W)} (goesOn : ∀ move ∈ moves, move ≠ .closeAll)
    {name : String} {inst : EngineInstance W}
    (there : floor.registry.instances.lookup name = some inst) :
    (floor.play moves).2.registry.instances.lookup name = some inst := by
  induction moves generalizing floor with
  | nil => exact there
  | cons move rest ih =>
    obtain ⟨here, others⟩ := List.forall_mem_cons.mp goesOn
    exact ih (floor.perform move).2 others ((perform_change floor move).keeps here there)

theorem mem_play_cons {β : Type} {seen : Event W → Option β} {floor : Floor W} {move : Move W}
    {rest : List (Move W)} {entry : β} :
    entry ∈ (floor.play (move :: rest)).1.filterMap seen ↔
      seen (floor.perform move).1 = some entry ∨
        entry ∈ ((floor.perform move).2.play rest).1.filterMap seen := by
  rw [play_cons, List.filterMap_cons]
  cases seen (floor.perform move).1 <;> simp [eq_comm]

/-- Whoever was given an engine was given the one that is there at the end. -/
theorem play_gives (floor : Floor W) {moves : List (Move W)} (goesOn : ∀ move ∈ moves, move ≠ .closeAll)
    {name : String} {inst : EngineInstance W}
    (given : (name, inst) ∈ (floor.play moves).1.filterMap Event.given?) :
    (floor.play moves).2.registry.instances.lookup name = some inst := by
  induction moves generalizing floor with
  | nil => cases given
  | cons move rest ih =>
    obtain ⟨-, others⟩ := List.forall_mem_cons.mp goesOn
    rcases mem_play_cons.mp given with here | later
    · exact play_keeps _ others ((perform_change floor move).gives here)
    · exact ih (floor.perform move).2 others later

/-- Whoever was given an engine was given one made on the way, or one from before. -/
theorem play_given_from (floor : Floor W) (moves : List (Move W)) {name : String}
    {inst : EngineInstance W} (given : (name, inst) ∈ (floor.play moves).1.filterMap Event.given?) :
    (name, inst) ∈ (floor.play moves).1.filterMap Event.built? ∨
      floor.registry.instances.lookup name = some inst := by
  induction moves generalizing floor with
  | nil => cases given
  | cons move rest ih =>
    have change := perform_change floor move
    have came : (floor.perform move).2.registry.instances.lookup name = some inst →
        (name, inst) ∈ (floor.play (move :: rest)).1.filterMap Event.built? ∨
          floor.registry.instances.lookup name = some inst := fun there =>
      (change.came there).imp_left fun built => mem_play_cons.mpr (.inl built)
    rcases mem_play_cons.mp given with here | later
    · exact came (change.gives here)
    · rcases ih (floor.perform move).2 later with built | there
      · exact .inl (mem_play_cons.mpr (.inr built))
      · exact came there

/-- What is made on the way was not there before. -/
theorem play_built_absent (floor : Floor W) {moves : List (Move W)}
    (goesOn : ∀ move ∈ moves, move ≠ .closeAll) {name : String} {inst : EngineInstance W}
    (built : (name, inst) ∈ (floor.play moves).1.filterMap Event.built?) :
    floor.registry.instances.lookup name = none := by
  induction moves generalizing floor with
  | nil => cases built
  | cons move rest ih =>
    obtain ⟨here, others⟩ := List.forall_mem_cons.mp goesOn
    rcases mem_play_cons.mp built with now | later
    · exact ((perform_change floor move).builds now).1
    · have absent := ih (floor.perform move).2 others later
      cases there : floor.registry.instances.lookup name with
      | none => rfl
      | some old =>
        rw [(perform_change floor move).keeps here there] at absent
        cases absent

theorem play_builds_once (floor : Floor W) {moves : List (Move W)}
    (goesOn : ∀ move ∈ moves, move ≠ .closeAll) :
    (((floor.play moves).1.filterMap Event.built?).map Prod.fst).Nodup := by
  induction moves generalizing floor with
  | nil => exact List.nodup_nil
  | cons move rest ih =>
    obtain ⟨-, others⟩ := List.forall_mem_cons.mp goesOn
    rw [play_cons, List.filterMap_cons]
    cases built : (floor.perform move).1.built? with
    | none => exact ih (floor.perform move).2 others
    | some entry =>
      rw [List.map_cons, List.nodup_cons]
      refine ⟨fun again => ?_, ih (floor.perform move).2 others⟩
      obtain ⟨later, member, same⟩ := List.mem_map.mp again
      have absent := play_built_absent _ others member
      rw [same, ((perform_change floor move).builds built).2] at absent
      cases absent

/-- The engines that are made are numbered one after the other, closings or not. -/
theorem play_serials (floor : Floor W) (moves : List (Move W)) :
    ((floor.play moves).1.filterMap Event.built?).map (·.2.serial) =
      List.range' floor.registry.made ((floor.play moves).1.filterMap Event.built?).length := by
  induction moves generalizing floor with
  | nil => rfl
  | cons move rest ih =>
    have rest := ih (floor.perform move).2
    have change := perform_change floor move
    rw [play_cons, List.filterMap_cons]
    generalize (floor.perform move).2 = next at change rest ⊢
    obtain ⟨registry, world, asked⟩ := next
    generalize (floor.perform move).1 = event at change ⊢
    cases change with
    | unchanged _ unbuilt _ _ =>
      rw [unbuilt]
      exact rest
    | registered | emptied => exact rest
    | made => exact congrArg (floor.registry.made :: ·) rest

/-! ### What callers can rely on -/

/-- A registry that is shared from the start. -/
structure Shared (config : EngineConfig W) (w : W) (moves : List (Move W)) (floor : Floor W) : Prop where
  cached_once : (floor.registry.instances.map Prod.fst).Nodup
  cached_registered : ∀ entry ∈ floor.registry.instances, floor.registry.isRegistered entry.1 = true
  /-- Every engine there is came of the first factory under its name, in the world of the time. -/
  produced : ∀ name inst, (name, inst) ∈ floor.registry.instances →
    ∃ factory before later, firstFactory? moves name = some factory ∧ moves = before ++ later ∧
      Produces config factory (reached config w before).world inst.engine
  /-- No two engines that were made are the same one. -/
  distinct : ((((opened config w).play moves).1.filterMap Event.built?).map (·.2.serial)).Nodup
  /-- Until the next closing at most one engine is made under a name, and everyone gets that one. -/
  once : ∀ more, (∀ move ∈ more, move ≠ .closeAll) →
    (((floor.play more).1.filterMap Event.built?).map Prod.fst).Nodup
  same : ∀ more, (∀ move ∈ more, move ≠ .closeAll) → ∀ name inst inst',
    (name, inst) ∈ (floor.play more).1.filterMap Event.given? →
      (name, inst') ∈ (floor.play more).1.filterMap Event.given? → inst = inst'
  given : ∀ more name inst, (name, inst) ∈ (floor.play more).1.filterMap Event.given? →
    (name, inst) ∈ (floor.play more).1.filterMap Event.built? ∨
      floor.registry.instances.lookup name = some inst
  /-- A request for what is there runs no factory. -/
  quiet : ∀ name inst, floor.registry.instances.lookup name = some inst → ∀ w',
    get name (floor.registry, w') = (.ok inst, floor.registry, w')
  tries : ∀ name factory, floor.registry.instances.lookup name = none →
    firstFactory? moves name = some factory → ∀ w',
      (get name (floor.registry, w')).2.2 = (floor.registry.make name factory w').2
  failed : ∀ move name failure, (floor.perform move).1.answer? = some (name, .error failure) →
    (floor.perform move).2.registry = floor.registry ∧ floor.registry.instances.lookup name = none
  /-- What is not there is made anew, whatever has failed before. -/
  retried : ∀ name, floor.registry.instances.lookup name = none → ∀ w' engine,
    (∃ inst, (get name (floor.registry, w')).1 = .ok inst ∧ inst.engine = engine) ↔
      ∃ factory, firstFactory? moves name = some factory ∧ Produces config factory w' engine
  taken : ∀ name factory factory', .register name factory ∈ moves →
    floor.perform (.register name factory') =
      (.registered name (.error (.engineAlreadyRegistered name)), floor)
  listed : floor.registry.list.Pairwise (· < ·) ∧
    ∀ name, name ∈ floor.registry.list ↔ ∃ factory, .register name factory ∈ moves
  /-- All engines there are get closed one after the other, each once, and are forgotten. -/
  closed : ∃ results result world,
    floor.perform .closeAll =
      (.closed results result, ⟨{ floor.registry with instances := [] }, world, floor.asked⟩) ∧
    closings floor.registry.instances floor.world = (results, world) ∧
    results.map Prod.fst = floor.registry.instances.map Prod.snd ∧
    (result = .ok () ↔ ∀ closing ∈ results, closing.2 = .ok ())
  /-- So they would be in any other order. -/
  any_order : ∀ order, order.Perm floor.registry.instances → ∀ w',
    ((closings order w').1.map Prod.fst).Perm (floor.registry.instances.map Prod.snd) ∧
    (closeEach order w').2 = (closings order w').2 ∧
    ((closeEach order w').1 = .ok () ↔ ∀ closing ∈ (closings order w').1, closing.2 = .ok ())
  /-- Requests that no other move comes between are requests as a whole. -/
  whole : ∀ caller name, floor.asked caller = none →
    ((floor.play [.look caller name, .settle caller]).1.filterMap Event.answer?,
      (floor.play [.look caller name, .settle caller]).2) =
      ([(name, (get name (floor.registry, floor.world)).1)],
        ⟨(get name (floor.registry, floor.world)).2.1, (get name (floor.registry, floor.world)).2.2,
          floor.asked⟩)
  capabilities : ∀ caller, floor.asked caller = none →
    EngineRegistry.capabilities (floor.registry, floor.world) =
      (.ok (((floor.play (requests caller floor.registry.list)).1.filterMap Event.given?).map
          (·.2.engine.capabilities)),
        (floor.play (requests caller floor.registry.list)).2.registry,
        (floor.play (requests caller floor.registry.list)).2.world)

theorem Sound.retried (sound : Sound config w moves registry) {name : String}
    (absent : registry.instances.lookup name = none) (w' : W) (engine : Engine W) :
    (∃ inst, (get name (registry, w')).1 = .ok inst ∧ inst.engine = engine) ↔
      ∃ factory, firstFactory? moves name = some factory ∧ Produces config factory w' engine := by
  rw [← sound.first, ← sound.config_eq]
  cases known : registry.factories.lookup name with
  | none => simp [get, absent, known]
  | some factory =>
    simp only [Option.some.injEq, exists_eq_left', ← @make_eq_ok_iff _ registry name]
    rcases ran : registry.make name factory w' with ⟨failure | made, after⟩
    · simp [get_failed absent known ran]
    · simp [get_made absent known ran]

theorem Sound.tries (sound : Sound config w moves registry) {name : String}
    {factory : EngineFactory W} (absent : registry.instances.lookup name = none)
    (first : firstFactory? moves name = some factory) (w' : W) :
    (get name (registry, w')).2.2 = (registry.make name factory w').2 := by
  rw [← sound.first] at first
  rcases ran : registry.make name factory w' with ⟨failure | made, after⟩
  · rw [get_failed absent first ran]
  · rw [get_made absent first ran]

theorem Change.failed {floor : Floor W} {move : Move W} {event : Event W} {name : String}
    {failure : Failure} (change : Change floor move event registry)
    (failed : event.answer? = some (name, .error failure)) :
    registry = floor.registry ∧ floor.registry.instances.lookup name = none := by
  cases change with
  | unchanged _ _ _ missing => exact ⟨rfl, missing name failure failed⟩
  | registered | made | emptied => cases failed

theorem Sound.mem_names_iff (sound : Sound config w moves registry) {name : String} :
    name ∈ registry.factories.map Prod.fst ↔ ∃ factory, .register name factory ∈ moves := by
  rw [← isSome_lookup_iff, sound.first, firstFactory?_isSome_iff]

theorem perform_closeAll (floor : Floor W) : ∃ results result world,
    floor.perform .closeAll =
      (.closed results result, ⟨{ floor.registry with instances := [] }, world, floor.asked⟩) ∧
    closings floor.registry.instances floor.world = (results, world) ∧
    results.map Prod.fst = floor.registry.instances.map Prod.snd ∧
    (result = .ok () ↔ ∀ closing ∈ results, closing.2 = .ok ()) := by
  refine ⟨_, _, _, ?_, rfl, closings_engines .., closeEach_eq_ok_iff ..⟩
  simp only [perform, closeAll, closeEach_eq]

theorem reached_shared (config : EngineConfig W) (w : W) (moves : List (Move W)) :
    Shared config w moves (reached config w moves) := by
  have sound := reached_sound config w moves
  generalize isFloor : reached config w moves = floor at sound ⊢
  refine
    { cached_once := sound.cached_once
      produced := sound.produced
      retried := fun _ => sound.retried
      cached_registered := ?_
      distinct := ?_
      once := fun _ => floor.play_builds_once
      same := fun more goesOn name inst inst' given given' => ?_
      given := fun more _ _ => floor.play_given_from more
      quiet := fun _ _ found w' => get_of_look (look_eq_ok_iff.mpr found) w'
      tries := fun _ _ => sound.tries
      failed := fun move _ _ => (perform_change floor move).failed
      taken := fun name factory factory' member => ?_
      listed := ⟨Text.sorted_strict sound.names_once, fun name => ?_⟩
      closed := floor.perform_closeAll
      any_order := fun _ same w' =>
        ⟨closings_perm same w', by rw [closeEach_eq], closeEach_eq_ok_iff ..⟩
      whole := fun caller name free => ?_
      capabilities := fun caller free => (floor.play_capabilities free).1 }
  · rintro ⟨name, inst⟩ member
    obtain ⟨factory, -, -, first, -⟩ := sound.produced name inst member
    rw [isRegistered, sound.first, first]
    rfl
  · rw [play_serials]
    exact List.nodup_range'
  · have there := floor.play_gives goesOn given
    rw [floor.play_gives goesOn given'] at there
    exact (Option.some.inj there).symm
  · have known : floor.registry.isRegistered name = true := by
      rw [isRegistered, isSome_lookup_iff, sound.mem_names_iff]
      exact ⟨factory, member⟩
    simp only [perform, register, known, if_true]
  · rw [list, Text.mem_sorted, sound.mem_names_iff]
  · obtain ⟨answers, after⟩ := floor.play_get name free
    exact Prod.ext answers after

/-- Two callers that both find nothing made get the same engine. -/
example (config : EngineConfig Unit) (engine : Engine Unit) :
    (((opened config ()).play [.register "ast" fun w => (.ok fun _ => pure engine, w), .look 0 "ast",
      .look 1 "ast", .settle 1, .settle 0]).1.filterMap Event.given?).map (·.2.serial) = [0, 0] := by
  rfl

end Floor
end PolicyLint.EngineRegistry
