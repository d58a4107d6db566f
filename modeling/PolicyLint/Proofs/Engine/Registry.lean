import PolicyLint.Engine.Registry
import PolicyLint.Proofs.Action
/-!
Registries of engines at work. What holds of every engine that a registry has made or may make holds of
every engine that it hands out, whatever it was asked for before. The built-in registry hands out the
engine of the kind that is asked for, initialised with its configuration, and leaves the world alone.
-/
namespace PolicyLint

namespace EngineRegistry

/-- What is kept is what was kept before, or new. -/
theorem lookup_keep {registry : EngineRegistry W} {name asked : String} {engine : Engine W}
    {inst : EngineInstance W}
    (found : (registry.keep name engine).instances.lookup asked = some inst) :
    registry.instances.lookup asked = some inst ∨ asked = name ∧ inst.engine = engine := by
  simp only [keep, List.lookup_append] at found
  cases before : registry.instances.lookup asked with
  | some old =>
    rw [before] at found
    exact .inl found
  | none =>
    rw [before] at found
    by_cases same : asked = name
    · subst same
      obtain rfl : ⟨registry.made, engine⟩ = inst := by simpa using found
      exact .inr ⟨rfl, rfl⟩
    · have other : (asked == name) = false := beq_false_of_ne same
      simp [List.lookup_cons, other] at found

/-- A registry whose engines, those made and those that may still be made, have a property that may
depend on their names. -/
structure Serves (property : String → Engine W → Prop) (registry : EngineRegistry W) : Prop where
  made : ∀ name inst, registry.instances.lookup name = some inst → property name inst.engine
  making : ∀ name factory, registry.factories.lookup name = some factory →
    ∀ w engine, (registry.make name factory w).1 = .ok engine → property name engine

/-- Asking for an engine gives one with the property, and keeps the registry so. -/
theorem Serves.get {property : String → Engine W → Prop} {registry : EngineRegistry W}
    (serves : registry.Serves property) (name : String) (w : W) :
    (get name (registry, w)).2.1.Serves property ∧
      ∀ inst, (get name (registry, w)).1 = .ok inst → property name inst.engine := by
  cases cached : registry.instances.lookup name with
  | some inst =>
    simp only [EngineRegistry.get, cached]
    exact ⟨serves, fun _ same => Except.ok.inj same ▸ serves.made name inst cached⟩
  | none =>
    cases known : registry.factories.lookup name with
    | none =>
      simp only [EngineRegistry.get, cached, known]
      exact ⟨serves, nofun⟩
    | some factory =>
      rcases ran : registry.make name factory w with ⟨failure | engine, w'⟩
      · simp only [EngineRegistry.get, cached, known, ran]
        exact ⟨serves, nofun⟩
      · have new : property name engine := serves.making name factory known w engine (by rw [ran])
        simp only [EngineRegistry.get, cached, known, ran]
        refine ⟨⟨fun asked inst found => ?_, serves.making⟩, fun _ same => Except.ok.inj same ▸ new⟩
        rcases lookup_keep found with old | ⟨rfl, rfl⟩
        · exact serves.made asked inst old
        · exact new

end EngineRegistry

/-! ### The built-in engines -/

theorem EngineKind.lookup_map (f : EngineKind → α) (name : String) (kinds : List EngineKind) :
    (kinds.map fun kind => (kind.name, f kind)).lookup name =
      (kinds.find? fun kind => kind.name == name).map f := by
  induction kinds with
  | nil => rfl
  | cons kind rest ih =>
    rw [List.map_cons, List.lookup_cons, List.find?_cons, BEq.comm]
    cases kind.name == name with
    | true => rfl
    | false => exact ih

namespace EngineRegistry

variable [Clock W] {config : EngineConfig W} {registry : EngineRegistry W}

theorem make_factoryOf (registry : EngineRegistry W) (name : String) (kind : EngineKind) (w : W) :
    registry.make name (factoryOf kind) w = (.ok (kind.engine (some registry.config)), w) := by
  simp only [make, Action.adapt_apply, Action.bind_apply, factoryOf, Action.pure_apply]
  rfl

theorem builtin_lookup (config : EngineConfig W) (name : String) :
    (builtin config).factories.lookup name = (EngineKind.find? name).map factoryOf :=
  EngineKind.lookup_map factoryOf name EngineKind.all

/-- A registry that the built-in one may have become. -/
structure Stocked (config : EngineConfig W) (registry : EngineRegistry W) : Prop where
  config_eq : registry.config = config
  factories_eq : registry.factories = (builtin config).factories
  instance_engine : ∀ name inst, registry.instances.lookup name = some inst →
    ∃ kind, EngineKind.find? name = some kind ∧ inst.engine = kind.engine (some config)

theorem builtin_stocked (config : EngineConfig W) : Stocked config (builtin config) :=
  ⟨rfl, rfl, nofun⟩

namespace Stocked

theorem lookup_factory (stocked : Stocked config registry) (name : String) :
    registry.factories.lookup name = (EngineKind.find? name).map factoryOf := by
  rw [stocked.factories_eq, builtin_lookup]

theorem keep {name : String} {kind : EngineKind} (stocked : Stocked config registry)
    (known : EngineKind.find? name = some kind) :
    Stocked config (registry.keep name (kind.engine (some config))) := by
  refine ⟨stocked.config_eq, stocked.factories_eq, ?_⟩
  intro asked inst found
  rcases lookup_keep found with old | ⟨rfl, same⟩
  · exact stocked.instance_engine asked inst old
  · exact ⟨kind, known, same⟩

theorem get_unknown {name : String} (stocked : Stocked config registry)
    (unknown : EngineKind.find? name = none) (w : W) :
    get name (registry, w) = (.error (.engineNotRegistered name), registry, w) := by
  have absent : registry.instances.lookup name = none := by
    cases found : registry.instances.lookup name with
    | none => rfl
    | some inst =>
      obtain ⟨kind, known, -⟩ := stocked.instance_engine name inst found
      simp [unknown] at known
  simp [get, absent, stocked.lookup_factory, unknown]

/-- A known engine is handed out without a look at the world, and the registry stays stocked. -/
theorem get_known {name : String} {kind : EngineKind} (stocked : Stocked config registry)
    (known : EngineKind.find? name = some kind) (w : W) :
    ∃ inst registry', get name (registry, w) = (.ok inst, registry', w) ∧
      inst.engine = kind.engine (some config) ∧ Stocked config registry' := by
  cases found : registry.instances.lookup name with
  | some inst =>
    obtain ⟨kind', known', engine⟩ := stocked.instance_engine name inst found
    obtain rfl : kind = kind' := Option.some.inj (known.symm.trans known')
    exact ⟨inst, registry, by simp [get, found], engine, stocked⟩
  | none =>
    have made := registry.make_factoryOf name kind w
    rw [stocked.config_eq] at made
    refine ⟨⟨registry.made, kind.engine (some config)⟩, _, ?_, rfl, stocked.keep known⟩
    simp [get, found, stocked.lookup_factory, known, made]

end Stocked
end EngineRegistry
end PolicyLint
