import PolicyLint.Engine.Evaluation
import PolicyLint.Proofs.Action
/-!
Adapters under observation. A ledger is a world with a list of what its adapters were asked and what
they answered, in the order of the calls. Watching an adapter changes neither its answers nor what it
does to the world, so what holds of the list of a watched evaluation holds of every evaluation.
-/
namespace PolicyLint

/-- A call of an adapter with its answer. Asking for a name or for capabilities is no call. -/
inductive Exchange where
  | checked (context : Context) (answer : Except Failure Unit)
  | installed (context : Context) (request : InstallRequest) (answer : Except Failure Unit)
  | configured (rule : Rule) (answer : Except Failure String)
  | executed (context : Context) (config : String) (files : List String)
      (answer : Except Failure Output)
  | parsed (output : Output) (answer : Except Failure (List Finding))

def Exchange.isInstall : Exchange → Bool
  | .installed .. => true
  | _ => false

structure Ledger (W : Type) where
  world : W
  entries : List (Adapter W × Exchange)

instance [Clock W] : Clock (Ledger W) :=
  ⟨fun ledger => ((Clock.read ledger.world).1, { ledger with world := (Clock.read ledger.world).2 })⟩

namespace Ledger

/-- Looking at the clock is no call. -/
theorem read_later [Clock W] (ledger : Ledger W) :
    (Clock.read ledger).2 = ⟨(Clock.read ledger.world).2, ledger.entries⟩ := rfl

/-- A call that is written down with its answer. -/
def note (adapter : Adapter W) (exchange : Except Failure α → Exchange) (call : Action W α) :
    Action (Ledger W) α :=
  fun ledger =>
    let r := call ledger.world
    (r.1, ⟨r.2, ledger.entries ++ [(adapter, exchange r.1)]⟩)

end Ledger

def Adapter.watched (adapter : Adapter W) : Adapter (Ledger W) where
  capabilities := adapter.capabilities
  check := fun context => Ledger.note adapter (.checked context) (adapter.check context)
  install := fun context request =>
    Ledger.note adapter (.installed context request) (adapter.install context request)
  configure := fun rule => Ledger.note adapter (.configured rule) (adapter.configure rule)
  execute := fun context config files =>
    Ledger.note adapter (.executed context config files) (adapter.execute context config files)
  parse := fun output => Ledger.note adapter (.parsed output) (adapter.parse output)

namespace AdapterRegistry

def watched (registry : AdapterRegistry W) : AdapterRegistry (Ledger W) :=
  ⟨registry.adapters.map Adapter.watched⟩

/-- Watching leaves alone what adapters are found by. -/
theorem watched_find? (registry : AdapterRegistry W) (wanted : Capabilities → Bool) :
    registry.watched.adapters.find? (fun a => wanted a.capabilities) =
      (registry.adapters.find? fun a => wanted a.capabilities).map Adapter.watched :=
  List.find?_map

theorem watched_get (registry : AdapterRegistry W) (name : String) :
    registry.watched.get name = (registry.get name).map Adapter.watched := by
  have found := registry.watched_find? fun c => c.name == name
  simp only [get, Adapter.name, found]
  cases registry.adapters.find? fun a => a.capabilities.name == name <;> rfl

theorem watched_find (registry : AdapterRegistry W) (language category : String) :
    registry.watched.find language category =
      (registry.find language category).map Adapter.watched := by
  have found := registry.watched_find? fun c => c.speaks language && c.handles category
  simp only [find, found]
  cases registry.adapters.find? fun a =>
    a.capabilities.speaks language && a.capabilities.handles category <;> rfl

end AdapterRegistry

/-- The same evaluator with every adapter watched. -/
def Evaluator.watched (evaluator : Evaluator W) : Evaluator (Ledger W) :=
  { evaluator with adapters := evaluator.adapters.map AdapterRegistry.watched }

theorem Evaluator.watched_adapterFor (evaluator : Evaluator W) (rule : Rule) (language : String)
    (pinned : Option String) :
    evaluator.watched.adapterFor rule language pinned =
      (evaluator.adapterFor rule language pinned).map Adapter.watched := by
  rcases evaluator with ⟨engine, category, _ | adapters, install⟩
  · rfl
  · simp only [adapterFor, watched, Option.map_some]
    cases rule.spec with
    | error failure => rfl
    | ok spec =>
      by_cases other : rule.engine ≠ engine
      · simp [other, bind, Except.bind, Except.map]
      · cases pinned with
        | none => simpa [other, bind, Except.bind] using adapters.watched_find language category
        | some name => simpa [other, bind, Except.bind] using adapters.watched_get name

/-! ### Steps that leave entries -/

/-- A watched step has the outcome of the step and does to the world what it does, and the calls it
makes of the one adapter, with that outcome, obey a law. -/
def Follows (adapter : Adapter W) (law : List Exchange → Except Failure α → Prop)
    (watched : Action (Ledger W) α) (step : Action W α) : Prop :=
  ∀ ledger, ∃ calls, law calls (step ledger.world).1 ∧
    watched ledger =
      ((step ledger.world).1, ⟨(step ledger.world).2, ledger.entries ++ calls.map (adapter, ·)⟩)

namespace Follows

variable {adapter : Adapter W} {law : List Exchange → Except Failure α → Prop}
  {watched : Action (Ledger W) α} {step : Action W α}

theorem note (exchange : Except Failure α → Exchange) (call : Action W α) :
    Follows adapter (fun calls answer => calls = [exchange answer])
      (Ledger.note adapter exchange call) call :=
  fun _ => ⟨_, rfl, rfl⟩

theorem pure (a : α) (holds : law [] (.ok a)) :
    Follows adapter law (Pure.pure a) (Pure.pure a) := by
  intro ledger
  refine ⟨[], holds, ?_⟩
  simp [Action.pure_apply]

/-- A step and the next obey a law if the calls of the first, when it fails, obey it alone, and else
the next step obeys it behind them. -/
theorem bind {law : List Exchange → Except Failure β → Prop}
    {first : List Exchange → Except Failure α → Prop} {watchedNext : α → Action (Ledger W) β}
    {next : α → Action W β} (here : Follows adapter first watched step)
    (failed : ∀ calls failure, first calls (.error failure) → law calls (.error failure))
    (there : ∀ a calls, first calls (.ok a) →
      Follows adapter (fun later outcome => law (calls ++ later) outcome) (watchedNext a) (next a)) :
    Follows adapter law (watched >>= watchedNext) (step >>= next) := by
  intro ledger
  obtain ⟨calls, holds, run⟩ := here ledger
  rw [Action.bind_apply, Action.bind_apply, run]
  generalize step ledger.world = done at holds
  rcases done with ⟨failure | a, w⟩
  · exact ⟨calls, failed calls failure holds, rfl⟩
  · obtain ⟨later, holds', run'⟩ := there a calls holds ⟨w, ledger.entries ++ calls.map (adapter, ·)⟩
    refine ⟨calls ++ later, holds', ?_⟩
    simpa only [List.map_append, List.append_assoc] using run'

/-- A step whose failure is caught leaves its entries all the same. -/
theorem outcome (here : Follows adapter law watched step) :
    Follows adapter (fun calls result => ∃ inner, result = .ok inner ∧ law calls inner)
      watched.outcome step.outcome := by
  intro ledger
  obtain ⟨calls, holds, run⟩ := here ledger
  exact ⟨calls, ⟨_, rfl, holds⟩, by simp only [Action.outcome_apply, run]⟩

theorem adapt (wrap : Failure → Failure) (here : Follows adapter law watched step) :
    Follows adapter (fun calls result => ∃ inner, result = inner.mapError wrap ∧ law calls inner)
      (ExceptT.adapt wrap watched) (ExceptT.adapt wrap step) := by
  intro ledger
  obtain ⟨calls, holds, run⟩ := here ledger
  exact ⟨calls, ⟨_, rfl, holds⟩, by simp only [Action.adapt_apply, run]⟩

theorem weaken {weaker : List Exchange → Except Failure α → Prop}
    (here : Follows adapter law watched step)
    (implies : ∀ calls outcome, law calls outcome → weaker calls outcome) :
    Follows adapter weaker watched step := by
  intro ledger
  obtain ⟨calls, holds, run⟩ := here ledger
  exact ⟨calls, implies _ _ holds, run⟩

end Follows
end PolicyLint
