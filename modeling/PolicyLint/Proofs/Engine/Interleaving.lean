import Mathlib.Data.List.Basic
import Mathlib.Logic.Function.Basic
import PolicyLint.Engine.Registry
/-!
Callers that share a registry of engines. A request for an engine has two sections: a look at what has
been made, which any number of callers may take at once, and, where nothing has been made yet, a section
of its own that looks again and makes the engine. Between the two sections of one caller the others go on.
-/
namespace PolicyLint.EngineRegistry

/-- The first section of a request: its answer, or none when the engine is still to be made. -/
def look (registry : EngineRegistry W) (name : String) : Option (Except Failure (EngineInstance W)) :=
  match registry.instances.lookup name with
  | some inst => some (.ok inst)
  | none => if registry.isRegistered name then none else some (.error (.engineNotRegistered name))

/-- A look that gives an answer gives the one of the whole request. The second section looks again, so
it is the whole request once more. -/
theorem get_of_look {registry : EngineRegistry W} {name : String}
    {answer : Except Failure (EngineInstance W)} (found : registry.look name = some answer) (w : W) :
    get name (registry, w) = (answer, registry, w) := by
  unfold look at found
  cases cached : registry.instances.lookup name with
  | some inst =>
    rw [cached] at found
    obtain rfl := Option.some.inj found
    simp only [get, cached]
  | none =>
    rw [cached] at found
    cases known : registry.factories.lookup name with
    | none =>
      have unknown : registry.isRegistered name = false := by simp [isRegistered, known]
      simp only [unknown, Bool.false_eq_true, if_false, Option.some.injEq] at found
      subst found
      simp only [get, cached, known]
    | some factory =>
      have known : registry.isRegistered name = true := by simp [isRegistered, known]
      simp [known] at found

theorem look_eq_ok_iff {registry : EngineRegistry W} {name : String} {inst : EngineInstance W} :
    registry.look name = some (.ok inst) ↔ registry.instances.lookup name = some inst := by
  unfold look
  cases registry.instances.lookup name with
  | some found => simp
  | none => simp

theorem look_eq_none_iff {registry : EngineRegistry W} {name : String} :
    registry.look name = none ↔
      registry.instances.lookup name = none ∧ registry.isRegistered name = true := by
  unfold look
  cases registry.instances.lookup name <;> simp

section

variable {registry : EngineRegistry W} {name : String} {factory : EngineFactory W} {w w' : W}

theorem get_made {engine : Engine W} (absent : registry.instances.lookup name = none)
    (known : registry.factories.lookup name = some factory)
    (made : registry.make name factory w = (.ok engine, w')) :
    get name (registry, w) = (.ok ⟨registry.made, engine⟩, registry.keep name engine, w') := by
  simp only [get, absent, known, made]

theorem get_failed {failure : Failure} (absent : registry.instances.lookup name = none)
    (known : registry.factories.lookup name = some factory)
    (failed : registry.make name factory w = (.error failure, w')) :
    get name (registry, w) = (.error failure, registry, w') := by
  simp only [get, absent, known, failed]

end

/-- Closes engines one after the other, each once, and writes down what comes of it. -/
def closings : List (String × EngineInstance W) → W → List (EngineInstance W × Except Failure Unit) × W
  | [], w => ([], w)
  | (_, inst) :: rest, w =>
    let first := inst.engine.close w
    let others := closings rest first.2
    ((inst, first.1) :: others.1, others.2)

theorem closings_engines (instances : List (String × EngineInstance W)) (w : W) :
    (closings instances w).1.map Prod.fst = instances.map Prod.snd := by
  induction instances generalizing w with
  | nil => rfl
  | cons entry rest ih => simp [closings, ih]

def failure? : Except Failure Unit → Option Failure
  | .error failure => some failure
  | .ok _ => none

/-- The first failure among results. -/
def firstFailure? (results : List (EngineInstance W × Except Failure Unit)) : Option Failure :=
  results.findSome? fun result => failure? result.2

theorem firstFailure?_eq_none_iff {results : List (EngineInstance W × Except Failure Unit)} :
    firstFailure? results = none ↔ ∀ result ∈ results, result.2 = .ok () := by
  simp only [firstFailure?, List.findSome?_eq_none_iff]
  refine forall₂_congr fun result _ => ?_
  rcases result with ⟨inst, failure | ⟨⟩⟩ <;> simp [failure?]

/-- One engine closed, with the first failure so far. -/
def closeNext (acc : Option Failure × W) (entry : String × EngineInstance W) : Option Failure × W :=
  (acc.1 <|> failure? (entry.2.engine.close acc.2).1, (entry.2.engine.close acc.2).2)

theorem foldl_closeNext (instances : List (String × EngineInstance W)) (first : Option Failure) (w : W) :
    instances.foldl closeNext (first, w) =
      (first <|> firstFailure? (closings instances w).1, (closings instances w).2) := by
  induction instances generalizing first w with
  | nil => simp [closings, firstFailure?]
  | cons entry rest ih =>
    rw [List.foldl_cons, closeNext, ih]
    cases failed : failure? (entry.2.engine.close w).1 <;> simp [closings, firstFailure?, failed]

theorem closeEach_eq (instances : List (String × EngineInstance W)) (w : W) :
    closeEach instances w =
      (match firstFailure? (closings instances w).1 with
        | none => .ok ()
        | some failure => .error failure,
       (closings instances w).2) := by
  unfold closeEach
  dsimp only
  rw [List.foldl_ext _ closeNext (none, w)]
  · rw [foldl_closeNext]
    cases firstFailure? (closings instances w).1 <;> rfl
  · rintro ⟨first, w⟩ entry -
    rcases closed : entry.2.engine.close w with ⟨failure | ⟨⟩, w'⟩ <;>
      simp [closeNext, closed, failure?]

theorem closeEach_eq_ok_iff (instances : List (String × EngineInstance W)) (w : W) :
    (closeEach instances w).1 = .ok () ↔ ∀ closing ∈ (closings instances w).1, closing.2 = .ok () := by
  rw [closeEach_eq, ← firstFailure?_eq_none_iff]
  cases firstFailure? (closings instances w).1 <;> simp

/-- In whatever order engines are closed, each of them is closed once. -/
theorem closings_perm {order instances : List (String × EngineInstance W)} (same : order.Perm instances)
    (w : W) :
    ((closings order w).1.map Prod.fst).Perm (instances.map Prod.snd) := by
  rw [closings_engines]
  exact same.map Prod.snd

/-! ### Moves -/

/-- A registry in use: the world around it, and what each caller between the two sections of a request
has asked for. -/
structure Floor (W : Type) where
  registry : EngineRegistry W
  world : W
  asked : Nat → Option String

inductive Move (W : Type) where
  | register (name : String) (factory : EngineFactory W)
  /-- The first section of a caller's request. -/
  | look (caller : Nat) (name : String)
  /-- The second section of a caller whose look found nothing made. -/
  | settle (caller : Nat)
  | list
  | closeAll
  /-- Whatever else happens to the world. -/
  | elsewhere (change : W → W)

/-- What comes of a move. -/
inductive Event (W : Type) where
  | registered (name : String) (result : Except Failure Unit)
  /-- A look that has to be followed by the second section. -/
  | missed (name : String)
  /-- An answer without running a factory. -/
  | answered (name : String) (result : Except Failure (EngineInstance W))
  /-- An answer of a factory that was run. -/
  | made (name : String) (result : Except Failure (EngineInstance W))
  | listed (names : List String)
  | closed (results : List (EngineInstance W × Except Failure Unit)) (result : Except Failure Unit)
  /-- Nothing for a caller to see. -/
  | unseen

namespace Event

/-- The answer to a request. -/
def answer? : Event W → Option (String × Except Failure (EngineInstance W))
  | .answered name result | .made name result => some (name, result)
  | _ => none

/-- The engine that a caller gets. -/
def given? (event : Event W) : Option (String × EngineInstance W) :=
  event.answer?.bind fun answer => answer.2.toOption.map (answer.1, ·)

/-- The engine that is made. -/
def built? : Event W → Option (String × EngineInstance W)
  | .made name (.ok inst) => some (name, inst)
  | _ => none

end Event

namespace Floor

def opened (config : EngineConfig W) (w : W) : Floor W :=
  ⟨new config, w, fun _ => none⟩

/-- A caller in the middle of a request has to settle it before it looks again. -/
def perform (floor : Floor W) : Move W → Event W × Floor W
  | .register name factory =>
    match floor.registry.register name factory with
    | .ok registry => (.registered name (.ok ()), { floor with registry })
    | .error failure => (.registered name (.error failure), floor)
  | .look caller name =>
    match floor.asked caller, floor.registry.look name with
    | some _, _ => (.unseen, floor)
    | none, some answer => (.answered name answer, floor)
    | none, none => (.missed name, { floor with asked := Function.update floor.asked caller (some name) })
  | .settle caller =>
    match floor.asked caller with
    | none => (.unseen, floor)
    | some name =>
      let (result, registry, world) := get name (floor.registry, floor.world)
      let floor' : Floor W := ⟨registry, world, Function.update floor.asked caller none⟩
      match floor.registry.look name with
      | some _ => (.answered name result, floor')
      | none => (.made name result, floor')
  | .list => (.listed floor.registry.list, floor)
  | .closeAll =>
    let (result, registry, world) := closeAll (floor.registry, floor.world)
    (.closed (closings floor.registry.instances floor.world).1 result, { floor with registry, world })
  | .elsewhere change => (.unseen, { floor with world := change floor.world })

/-- One move after the other, whoever makes it. -/
def play (floor : Floor W) : List (Move W) → List (Event W) × Floor W
  | [] => ([], floor)
  | move :: rest =>
    let (event, floor) := floor.perform move
    let (events, floor) := floor.play rest
    (event :: events, floor)

theorem play_cons (floor : Floor W) (move : Move W) (rest : List (Move W)) :
    floor.play (move :: rest) =
      ((floor.perform move).1 :: ((floor.perform move).2.play rest).1,
        ((floor.perform move).2.play rest).2) :=
  rfl

theorem play_append (floor : Floor W) (before behind : List (Move W)) :
    floor.play (before ++ behind) =
      ((floor.play before).1 ++ ((floor.play before).2.play behind).1,
        ((floor.play before).2.play behind).2) := by
  induction before generalizing floor with
  | nil => rfl
  | cons move rest ih => simp only [List.cons_append, play_cons, ih]

/-! ### What a move can do -/

/-- The changes that a move can make to a registry, with what a caller sees of them. -/
inductive Change (floor : Floor W) : Move W → Event W → EngineRegistry W → Prop where
  /-- Whoever gets an engine gets the one there is. -/
  | unchanged {move event}
      (taken : ∀ name factory, move = .register name factory → floor.registry.isRegistered name = true)
      (unbuilt : event.built? = none)
      (given : ∀ name inst, event.given? = some (name, inst) →
        floor.registry.instances.lookup name = some inst)
      (missing : ∀ name failure, event.answer? = some (name, .error failure) →
        floor.registry.instances.lookup name = none) :
      Change floor move event floor.registry
  | registered {name factory} (free : floor.registry.isRegistered name = false) :
      Change floor (.register name factory) (.registered name (.ok ()))
        { floor.registry with factories := floor.registry.factories ++ [(name, factory)] }
  | made {caller name factory engine w} (absent : floor.registry.instances.lookup name = none)
      (known : floor.registry.factories.lookup name = some factory)
      (made : floor.registry.make name factory floor.world = (.ok engine, w)) :
      Change floor (.settle caller) (.made name (.ok ⟨floor.registry.made, engine⟩))
        (floor.registry.keep name engine)
  | emptied {results result} :
      Change floor .closeAll (.closed results result) { floor.registry with instances := [] }

theorem Change.answered {floor : Floor W} {move : Move W} {name : String}
    {answer : Except Failure (EngineInstance W)}
    (other : ∀ name factory, move ≠ .register name factory)
    (found : floor.registry.look name = some answer) :
    Change floor move (.answered name answer) floor.registry := by
  refine .unchanged (fun _ _ same => absurd same (other _ _)) rfl ?_ ?_
  · intro asked inst given
    cases answer with
    | error failure => cases given
    | ok there =>
      cases given
      exact look_eq_ok_iff.mp found
  · rintro asked failure ⟨⟩
    cases cached : floor.registry.instances.lookup name with
    | none => rfl
    | some inst => simp [look_eq_ok_iff.mpr cached] at found

theorem perform_change (floor : Floor W) (move : Move W) :
    Change floor move (floor.perform move).1 (floor.perform move).2.registry := by
  cases move with
  | register name factory =>
    cases known : floor.registry.isRegistered name with
    | true =>
      simp only [perform, register, known, if_true]
      refine .unchanged ?_ rfl nofun nofun
      rintro _ _ ⟨⟩
      exact known
    | false =>
      simp only [perform, register, known, Bool.false_eq_true, if_false]
      exact .registered known
  | look caller name =>
    cases asked : floor.asked caller with
    | some _ =>
      simp only [perform, asked]
      exact .unchanged nofun rfl nofun nofun
    | none =>
      cases found : floor.registry.look name with
      | none =>
        simp only [perform, asked, found]
        exact .unchanged nofun rfl nofun nofun
      | some answer =>
        simp only [perform, asked, found]
        exact .answered nofun found
  | settle caller =>
    cases asked : floor.asked caller with
    | none =>
      simp only [perform, asked]
      exact .unchanged nofun rfl nofun nofun
    | some name =>
      cases found : floor.registry.look name with
      | some answer =>
        simp only [perform, asked, get_of_look found, found]
        exact .answered nofun found
      | none =>
        obtain ⟨absent, known⟩ := look_eq_none_iff.mp found
        obtain ⟨factory, known⟩ := Option.isSome_iff_exists.mp known
        rcases ran : floor.registry.make name factory floor.world with ⟨failure | engine, w⟩
        · simp only [perform, asked, get_failed absent known ran, found]
          refine .unchanged nofun rfl nofun ?_
          rintro _ _ ⟨⟩
          exact absent
        · simp only [perform, asked, get_made absent known ran, found]
          exact .made absent known ran
  | list => exact .unchanged nofun rfl nofun nofun
  | closeAll =>
    simp only [perform, closeAll]
    exact .emptied
  | elsewhere change => exact .unchanged nofun rfl nofun nofun

/-! ### Whole requests -/

/-- A request whose sections follow each other is a request as a whole. -/
theorem play_get (floor : Floor W) {caller : Nat} (name : String) (free : floor.asked caller = none) :
    let played := floor.play [.look caller name, .settle caller]
    let got := get name (floor.registry, floor.world)
    played.1.filterMap Event.answer? = [(name, got.1)] ∧
      played.2 = ⟨got.2.1, got.2.2, floor.asked⟩ := by
  intro played got
  cases found : floor.registry.look name with
  | some answer =>
    simp only [played, got, play, perform, free, found, get_of_look found]
    exact ⟨rfl, trivial⟩
  | none =>
    have settled : Function.update (Function.update floor.asked caller (some name)) caller none =
        floor.asked := by rw [Function.update_idem, Function.update_eq_self_iff, free]
    simp only [played, got, play, perform, free, found, Function.update_self, settled]
    exact ⟨rfl, rfl⟩

/-- The requests of a caller for engines, one after the other. -/
def requests (caller : Nat) (names : List String) : List (Move W) :=
  names.flatMap fun name => [.look caller name, .settle caller]

theorem filterMap_given (events : List (Event W)) :
    events.filterMap Event.given? =
      (events.filterMap Event.answer?).filterMap fun answer => answer.2.toOption.map (answer.1, ·) :=
  List.filterMap_filterMap.symm

/-- One engine asked for, with the capabilities so far. -/
def capabilitiesNext (acc : List EngineCapabilities × Workshop W) (name : String) :
    List EngineCapabilities × Workshop W :=
  (acc.1 ++ ((get name acc.2).1.toOption.map (·.engine.capabilities)).toList, (get name acc.2).2)

theorem foldl_capabilitiesNext (floor : Floor W) {caller : Nat} (free : floor.asked caller = none)
    (names : List String) (before : List EngineCapabilities) :
    let played := floor.play (requests caller names)
    names.foldl capabilitiesNext (before, floor.registry, floor.world) =
        (before ++ (played.1.filterMap Event.given?).map (·.2.engine.capabilities),
          played.2.registry, played.2.world) ∧
      played.2.asked = floor.asked := by
  induction names generalizing floor before with
  | nil => simp [requests, play]
  | cons name rest ih =>
    obtain ⟨answers, after⟩ := floor.play_get name free
    have step : (requests caller (name :: rest) : List (Move W)) =
        [.look caller name, .settle caller] ++ requests caller rest := rfl
    have here : ((floor.play [.look caller name, .settle caller]).1.filterMap Event.given?).map
        (·.2.engine.capabilities) =
          ((get name (floor.registry, floor.world)).1.toOption.map (·.engine.capabilities)).toList := by
      rw [filterMap_given, answers]
      cases (get name (floor.registry, floor.world)).1 <;> rfl
    let got := get name (floor.registry, floor.world)
    obtain ⟨gathered, asked⟩ := ih ⟨got.2.1, got.2.2, floor.asked⟩ free
      (before ++ (got.1.toOption.map (·.engine.capabilities)).toList)
    rw [step, play_append, after]
    refine ⟨?_, asked⟩
    rw [List.filterMap_append, List.map_append, here, ← List.append_assoc]
    exact gathered

/-- Capabilities are those of the engines that one caller's requests for all names are given. -/
theorem play_capabilities (floor : Floor W) {caller : Nat} (free : floor.asked caller = none) :
    let played := floor.play (requests caller floor.registry.list)
    capabilities (floor.registry, floor.world) =
        (.ok ((played.1.filterMap Event.given?).map (·.2.engine.capabilities)),
          played.2.registry, played.2.world) ∧
      played.2.asked = floor.asked := by
  intro played
  obtain ⟨gathered, asked⟩ := floor.foldl_capabilitiesNext free floor.registry.list []
  refine ⟨?_, asked⟩
  unfold capabilities
  dsimp only
  rw [List.foldl_ext _ capabilitiesNext, gathered]
  · rfl
  · rintro ⟨before, state⟩ name -
    rcases ran : get name state with ⟨failure | inst, state'⟩ <;>
      simp [capabilitiesNext, ran, Except.toOption]

end Floor
end PolicyLint.EngineRegistry
