import PolicyLint.Host.Basic
import PolicyLint.Proofs.Action
/-!
Failures in layers. A failure to create an engine or to install a tool carries its cause, which may carry
another, down to a root. Whether the root is an interruption shows through installations, and not through
the creation of an engine. Below, the failures of steps in a row are those of the single steps.
-/
namespace PolicyLint

namespace Failure

/-- What may lie around a failure. -/
inductive Layer where
  | creation (engine : String)
  | installation (adapter : String)
deriving DecidableEq, Repr

def Layer.around : Layer → Failure → Failure
  | .creation engine => .engineInit engine
  | .installation adapter => .installFailed adapter

def Layer.isInstallation : Layer → Bool
  | .creation _ => false
  | .installation _ => true

/-- Layers around a failure, the outermost first. -/
def wrapped (layers : List Layer) (base : Failure) : Failure :=
  layers.foldr Layer.around base

def layers : Failure → List Layer
  | .engineInit engine cause => .creation engine :: cause.layers
  | .installFailed adapter cause => .installation adapter :: cause.layers
  | _ => []

/-- A failure that has no cause. -/
def Bare (failure : Failure) : Prop :=
  failure.layers = []

/-- The cause of the cause, and so on. -/
def root : Failure → Failure
  | .engineInit _ cause | .installFailed _ cause => cause.root
  | failure => failure

theorem wrapped_layers_root (failure : Failure) : wrapped failure.layers failure.root = failure := by
  induction failure with
  | engineInit engine cause ih => exact congrArg (engineInit engine) ih
  | installFailed adapter cause ih => exact congrArg (installFailed adapter) ih
  | _ => rfl

theorem layers_wrapped (layers : List Layer) (base : Failure) :
    (wrapped layers base).layers = layers ++ base.layers := by
  induction layers with
  | nil => rfl
  | cons layer rest ih =>
    cases layer with
    | creation engine => exact congrArg (Layer.creation engine :: ·) ih
    | installation adapter => exact congrArg (Layer.installation adapter :: ·) ih

theorem root_wrapped (layers : List Layer) (base : Failure) : (wrapped layers base).root = base.root := by
  induction layers with
  | nil => rfl
  | cons layer rest ih => cases layer <;> exact ih

theorem Bare.root {failure : Failure} (bare : failure.Bare) : failure.root = failure := by
  have whole := failure.wrapped_layers_root
  rwa [show failure.layers = [] from bare] at whole

/-- Called off, or out of time. -/
inductive IsInterruption : Failure → Prop where
  | cancelled (program : String) : IsInterruption (.cancelled program)
  | timedOut (program : String) (after : Duration) : IsInterruption (.timedOut program after)

/-- No engine was being created. -/
def AfterCreation (failure : Failure) : Prop :=
  ∀ layer ∈ failure.layers, layer.isInstallation = true

theorem Bare.afterCreation {failure : Failure} (bare : failure.Bare) : failure.AfterCreation := by
  rw [AfterCreation, show failure.layers = [] from bare]
  exact fun _ impossible => absurd impossible List.not_mem_nil

theorem afterCreation_installFailed_iff (adapter : String) (cause : Failure) :
    (installFailed adapter cause).AfterCreation ↔ cause.AfterCreation := by
  simp [AfterCreation, layers, Layer.isInstallation]

theorem not_afterCreation_engineInit (engine : String) (cause : Failure) :
    ¬ (engineInit engine cause).AfterCreation := by
  simp [AfterCreation, layers, Layer.isInstallation]

/-- An interruption shows through installations, and through nothing else. -/
theorem isCancellation_iff (failure : Failure) :
    failure.isCancellation = true ↔ failure.root.IsInterruption ∧ failure.AfterCreation := by
  induction failure with
  | cancelled program => exact iff_of_true rfl ⟨.cancelled program, Bare.afterCreation rfl⟩
  | timedOut program after => exact iff_of_true rfl ⟨.timedOut program after, Bare.afterCreation rfl⟩
  | installFailed adapter cause ih =>
    rw [afterCreation_installFailed_iff]
    exact ih
  | engineInit engine cause =>
    exact iff_of_false Bool.false_ne_true fun told => not_afterCreation_engineInit engine cause told.2
  | _ => exact iff_of_false Bool.false_ne_true fun told => nomatch told.1

/-- The same for any layers around a failure that has no cause. -/
theorem isCancellation_wrapped (layers : List Layer) {base : Failure} (bare : base.Bare) :
    (wrapped layers base).isCancellation = true ↔
      base.IsInterruption ∧ ∀ layer ∈ layers, layer.isInstallation = true := by
  rw [isCancellation_iff, root_wrapped, bare.root, AfterCreation, layers_wrapped,
    show base.layers = [] from bare, List.append_nil]

end Failure

/-! ### Failures of one kind -/

/-- A result that is no failure of another kind. -/
def FailsOnly (kind : Failure → Prop) (result : Except Failure α) : Prop :=
  ∀ failure, result = .error failure → kind failure

variable {kind : Failure → Prop}

theorem failsOnly_ok (a : α) : FailsOnly kind (.ok a) :=
  nofun

theorem failsOnly_error {failure : Failure} (fits : kind failure) :
    FailsOnly kind (.error failure : Except Failure α) :=
  fun _ same => Except.error.inj same ▸ fits

theorem FailsOnly.mono {other : Failure → Prop} {result : Except Failure α} (fails : FailsOnly kind result)
    (implies : ∀ failure, kind failure → other failure) : FailsOnly other result :=
  fun failure failed => implies failure (fails failure failed)

theorem FailsOnly.bind {result : Except Failure α} {next : α → Except Failure β}
    (here : FailsOnly kind result) (there : ∀ a, FailsOnly kind (next a)) :
    FailsOnly kind (result >>= next) := by
  cases result with
  | error failure => exact failsOnly_error (here failure rfl)
  | ok a => exact there a

theorem FailsOnly.map {result : Except Failure α} (fails : FailsOnly kind result) (f : α → β) :
    FailsOnly kind (result.map f) := by
  cases result with
  | error failure => exact failsOnly_error (fails failure rfl)
  | ok a => exact failsOnly_ok (f a)

theorem failsOnly_mapError {result : Except ε α} {wrap : ε → Failure} (fits : ∀ fault, kind (wrap fault)) :
    FailsOnly kind (result.mapError wrap) := by
  cases result with
  | error fault => exact failsOnly_error (fits fault)
  | ok a => exact failsOnly_ok a

namespace Action

/-- A step that has failures of one kind only, in whatever world. -/
def Fails (kind : Failure → Prop) (step : Action W α) : Prop :=
  ∀ w, FailsOnly kind (step w).1

theorem fails_pure (a : α) : Fails kind (pure a : Action W α) :=
  fun _ => failsOnly_ok a

theorem fails_fail {failure : Failure} (fits : kind failure) : Fails kind (fail failure : Action W α) :=
  fun _ => failsOnly_error fits

theorem fails_ofExcept {result : Except Failure α} (fails : FailsOnly kind result) :
    Fails kind (ofExcept result : Action W α) :=
  fun _ => fails

theorem fails_always (step : W → α × W) : Fails kind (always step) :=
  fun w => failsOnly_ok (step w).1

theorem fails_outcome (step : Action W α) : Fails kind step.outcome :=
  fun w => failsOnly_ok (step w).1

theorem Fails.mono {other : Failure → Prop} {step : Action W α} (fails : Fails kind step)
    (implies : ∀ failure, kind failure → other failure) : Fails other step :=
  fun w => (fails w).mono implies

theorem Fails.bind {step : Action W α} {next : α → Action W β} (here : Fails kind step)
    (there : ∀ a, Fails kind (next a)) : Fails kind (step >>= next) := by
  intro w
  have first := here w
  rw [bind_apply]
  rcases ran : step w with ⟨failure | a, w'⟩
  · rw [ran] at first
    exact failsOnly_error (first failure rfl)
  · exact there a w'

theorem Fails.adapt {wrap : Failure → Failure} {step : Action W α} {inner : Failure → Prop}
    (fails : Fails inner step) (fits : ∀ failure, inner failure → kind (wrap failure)) :
    Fails kind (ExceptT.adapt wrap step) := by
  intro w
  have first := fails w
  rw [adapt_apply]
  rcases ran : step w with ⟨failure | a, w'⟩
  · rw [ran] at first
    exact failsOnly_error (fits failure (first failure rfl))
  · exact failsOnly_ok a

theorem fails_get {next : W → Action W α} (there : ∀ w, Fails kind (next w)) : Fails kind (get >>= next) :=
  Fails.bind (fun w => failsOnly_ok w) there

theorem fails_set (after : W) {next : PUnit → Action W α} (there : ∀ a, Fails kind (next a)) :
    Fails kind (set after >>= next) :=
  Fails.bind (fun _ => failsOnly_ok _) there

theorem fails_guard {failure : Failure} (wrong : Prop) [Decidable wrong] (fits : kind failure) :
    Fails kind (if wrong then fail failure else pure () : Action W Unit) := by
  split
  · exact fails_fail fits
  · exact fails_pure ()

/-- A configuration file that cannot be written is a failure of the machine. -/
theorem Fails.withConfig {use : String → Action Host α} (fails : ∀ path, Fails kind (use path))
    (fits : ∀ message, kind (.io message)) (directory lead tail content : String) :
    Fails kind (Host.withConfig directory lead tail content use) := by
  intro host
  unfold Host.withConfig
  cases host.openConfig directory lead tail content with
  | error error => exact failsOnly_error (fits error.message)
  | ok file => exact fails file.1 file.2

end Action
end PolicyLint
