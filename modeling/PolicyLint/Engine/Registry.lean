import PolicyLint.Engine.Builtin
/-!
The engines of a run: factories under names, and the engines made so far. An engine is made when it is
first asked for, and kept; a factory or an initialisation that fails leaves nothing behind, so the
next request tries again.
-/
namespace PolicyLint

/-- Makes an engine that is still to be initialised. -/
abbrev EngineFactory (W : Type) := Action W (EngineConfig W → Action W (Engine W))

/-- An engine that was made; no two have the same serial number. -/
structure EngineInstance (W : Type) where
  serial : Nat
  engine : Engine W

structure EngineRegistry (W : Type) where
  config : EngineConfig W
  factories : List (String × EngineFactory W)
  instances : List (String × EngineInstance W)
  /-- How many engines have been made. -/
  made : Nat

namespace EngineRegistry

def new (config : EngineConfig W) : EngineRegistry W :=
  ⟨config, [], [], 0⟩

def isRegistered (registry : EngineRegistry W) (name : String) : Bool :=
  (registry.factories.lookup name).isSome

/-- A name that is taken is refused, and its first factory stays. -/
def register (registry : EngineRegistry W) (name : String) (factory : EngineFactory W) :
    Except Failure (EngineRegistry W) :=
  if registry.isRegistered name then .error (.engineAlreadyRegistered name)
  else .ok { registry with factories := registry.factories ++ [(name, factory)] }

/-- The registered names, in order. -/
def list (registry : EngineRegistry W) : List String :=
  Text.sorted (registry.factories.map Prod.fst)

/-- A new engine, made by a factory and initialised. -/
def make (registry : EngineRegistry W) (name : String) (factory : EngineFactory W) :
    Action W (Engine W) :=
  ExceptT.adapt (Failure.engineInit name) do
    let init ← factory
    init registry.config

def keep (registry : EngineRegistry W) (name : String) (engine : Engine W) : EngineRegistry W :=
  { registry with
    instances := registry.instances ++ [(name, ⟨registry.made, engine⟩)]
    made := registry.made + 1 }

/-- A world together with the engines in it. -/
abbrev Workshop (W : Type) := EngineRegistry W × W

/-- Steps of the world alone. -/
def inWorld (action : Action W α) : Action (Workshop W) α :=
  fun (registry, w) => let r := action w; (r.1, registry, r.2)

/-- The engine under a name, made on first use. -/
def get (name : String) : Action (Workshop W) (EngineInstance W) :=
  fun (registry, w) =>
    match registry.instances.lookup name with
    | some inst => (.ok inst, registry, w)
    | none =>
      match registry.factories.lookup name with
      | none => (.error (.engineNotRegistered name), registry, w)
      | some factory =>
        match registry.make name factory w with
        | (.error failure, w) => (.error failure, registry, w)
        | (.ok engine, w) => (.ok ⟨registry.made, engine⟩, registry.keep name engine, w)

/-- The capabilities of the engines that can be made, in order of their names. -/
def capabilities : Action (Workshop W) (List EngineCapabilities) :=
  fun (registry, w) =>
    let step := fun (acc : List EngineCapabilities × Workshop W) (name : String) =>
      match get name acc.2 with
      | (.ok inst, state) => (acc.1 ++ [inst.engine.capabilities], state)
      | (.error _, state) => (acc.1, state)
    let result := registry.list.foldl step ([], registry, w)
    (.ok result.1, result.2)

/-- Closes engines one after the other; gives the first failure after all have been closed. -/
def closeEach (instances : List (String × EngineInstance W)) : Action W Unit :=
  fun w =>
    let step := fun (acc : Option Failure × W) (inst : String × EngineInstance W) =>
      match inst.2.engine.close acc.2 with
      | (.ok _, w) => (acc.1, w)
      | (.error failure, w) => (acc.1 <|> some failure, w)
    match instances.foldl step (none, w) with
    | (none, w) => (.ok (), w)
    | (some failure, w) => (.error failure, w)

/-- Closes every engine that was made and forgets it. Any order would do; this is the one they were made in. -/
def closeAll : Action (Workshop W) Unit :=
  fun (registry, w) =>
    let closed := closeEach registry.instances w
    (closed.1, { registry with instances := [] }, closed.2)

/-- The factory of a built-in engine never fails. -/
def factoryOf [Clock W] (kind : EngineKind) : EngineFactory W :=
  fun w => (.ok fun config => pure (kind.engine (some config)), w)

/-- The built-in engines, with nothing made yet. -/
def builtin [Clock W] (config : EngineConfig W) : EngineRegistry W :=
  { new config with
    factories := EngineKind.all.map fun kind => (kind.name, factoryOf kind) }

end EngineRegistry
end PolicyLint
