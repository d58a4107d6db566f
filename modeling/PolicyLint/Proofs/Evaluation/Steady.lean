import PolicyLint.Proofs.Evaluation.Run
/-!
Adapters without a memory. What they answer depends on what they are given and on whether their tool is
there, and only an installation changes that. An evaluation by way of such adapters has the same
outcome, durations aside, in any two worlds that differ in nothing but tools that are put there on
demand.
-/
namespace PolicyLint

section Steadiness

variable (adapters : List (Adapter W)) (isThere : Adapter W → W → Bool)

/-- Nothing that is there or missing differs between two worlds. -/
def SameTools (w w' : W) : Prop :=
  ∀ adapter ∈ adapters, isThere adapter w' = isThere adapter w

/-- A call that always has one answer and leaves every tool as it is. -/
def Constant (call : Action W α) : Prop :=
  ∃ answer, ∀ w, (call w).1 = answer ∧ SameTools adapters isThere w (call w).2

/-- An installation that always puts the tool there, and no other. -/
def Provides (adapter : Adapter W) (install : Action W Unit) : Prop :=
  ∀ w, (install w).1 = .ok () ∧ isThere adapter (install w).2 = true ∧
    ∀ other ∈ adapters, other ≠ adapter → isThere other (install w).2 = isThere other w

/-- An adapter that answers by its arguments alone, but for the check, which tells whether the tool is
there. An installation that does not provide the tool always fails, or does nothing. -/
structure Adapter.Steady (context : Context) (adapter : Adapter W) : Prop where
  check : ∃ missing, ∀ w,
    (adapter.check context w).1 = (if isThere adapter w then .ok () else .error missing) ∧
      SameTools adapters isThere w (adapter.check context w).2
  install : ∀ request, Provides adapters isThere adapter (adapter.install context request) ∨
    Constant adapters isThere (adapter.install context request)
  configure : ∀ rule, Constant adapters isThere (adapter.configure rule)
  execute : ∀ config files, Constant adapters isThere (adapter.execute context config files)
  parse : ∀ output, Constant adapters isThere (adapter.parse output)

end Steadiness

/-- Steady adapters, in a world whose clock has no hand in tools. -/
structure AdapterRegistry.Steady [Clock W] (registry : AdapterRegistry W)
    (isThere : Adapter W → W → Bool) (context : Context) : Prop where
  adapter : ∀ adapter ∈ registry.adapters, adapter.Steady registry.adapters isThere context
  clock : ∀ w : W, SameTools registry.adapters isThere w (Clock.read w).2

/-! ### Worlds that agree -/

section Agreement

variable (registry : AdapterRegistry W) (isThere : Adapter W → W → Bool) (context : Context)
  (request : InstallRequest)

/-- Two worlds that differ at most in tools that an installation puts there. -/
def Agree (w w' : W) : Prop :=
  ∀ adapter ∈ registry.adapters,
    Provides registry.adapters isThere adapter (adapter.install context request) ∨
      isThere adapter w' = isThere adapter w

/-- A step that keeps to worlds that agree and answers the same in all of them. -/
def Alike (step : Action W α) : Prop :=
  ∀ w, Agree registry isThere context request w (step w).2 ∧
    ∀ w', Agree registry isThere context request w w' → (step w').1 = (step w).1

end Agreement

variable {registry : AdapterRegistry W} {isThere : Adapter W → W → Bool} {context : Context}
  {request : InstallRequest}

namespace Agree

theorem refl (w : W) : Agree registry isThere context request w w :=
  fun _ _ => .inr rfl

theorem symm {w w' : W} (agree : Agree registry isThere context request w w') :
    Agree registry isThere context request w' w :=
  fun adapter known => (agree adapter known).imp_right Eq.symm

theorem trans {w w' w'' : W} (first : Agree registry isThere context request w w')
    (second : Agree registry isThere context request w' w'') :
    Agree registry isThere context request w w'' := by
  intro adapter known
  rcases first adapter known with provides | same
  · exact .inl provides
  · exact (second adapter known).imp_right (·.trans same)

end Agree

theorem SameTools.agree {w w' : W} (same : SameTools registry.adapters isThere w w') :
    Agree registry isThere context request w w' :=
  fun adapter known => .inr (same adapter known)

theorem SameTools.trans {adapters : List (Adapter W)} {w w' w'' : W}
    (first : SameTools adapters isThere w w') (second : SameTools adapters isThere w' w'') :
    SameTools adapters isThere w w'' :=
  fun adapter known => (second adapter known).trans (first adapter known)

theorem Constant.alike {call : Action W α} (constant : Constant registry.adapters isThere call) :
    Alike registry isThere context request call := by
  obtain ⟨answer, fixed⟩ := constant
  exact fun w => ⟨(fixed w).2.agree, fun w' _ => (fixed w').1.trans (fixed w).1.symm⟩

theorem Alike.bind {step : Action W α} {next : α → Action W β}
    (here : Alike registry isThere context request step)
    (there : ∀ a, Alike registry isThere context request (next a)) :
    Alike registry isThere context request (step >>= next) := by
  intro w
  obtain ⟨stays, answers⟩ := here w
  rw [Action.bind_apply]
  rcases ran : step w with ⟨failure | a, v⟩
  · rw [ran] at stays answers
    refine ⟨stays, fun w' agree => ?_⟩
    rw [Action.bind_error (answers w' agree)]
  · rw [ran] at stays answers
    refine ⟨stays.trans (there a v).1, fun w' agree => ?_⟩
    rw [Action.bind_ok (answers w' agree)]
    exact (there a v).2 _ (stays.symm.trans (agree.trans (here w').1))

/-! ### Evaluations -/

theorem Evaluator.ensureAvailable_apply (context : Context) (adapter : Adapter W)
    (request : InstallRequest) (w : W) :
    ensureAvailable context adapter request w =
      match adapter.check context w with
      | (.ok _, w₁) => (.ok (), w₁)
      | (.error _, w₁) =>
        match adapter.check context w₁ with
        | (.ok _, w₂) => (.ok (), w₂)
        | (.error _, w₂) =>
          match adapter.install context request w₂ with
          | (.ok _, w₃) => ((adapter.check context w₃).1.mapError (.installFailed adapter.name),
              (adapter.check context w₃).2)
          | (.error failure, w₃) => (.error (.installFailed adapter.name failure), w₃) := by
  simp only [ensureAvailable, Action.bind_apply, Action.outcome_apply]
  rcases adapter.check context w with ⟨_ | _, w₁⟩
  · simp only [Except.isOk, Except.toBool, Bool.false_eq_true, ↓reduceIte, Action.bind_apply,
      Action.outcome_apply]
    rcases adapter.check context w₁ with ⟨_ | _, w₂⟩
    · simp only [Bool.false_eq_true, ↓reduceIte, Action.bind_apply, Action.adapt_apply]
      rcases adapter.install context request w₂ with ⟨_ | _, _⟩ <;> rfl
    · rfl
  · rfl

namespace Adapter.Steady

variable {adapter : Adapter W}

/-- Where the tool is there, nothing is done about it. -/
theorem ensure_there (steady : adapter.Steady registry.adapters isThere context) {w : W}
    (there : isThere adapter w = true) :
    (Evaluator.ensureAvailable context adapter request w).1 = .ok () ∧
      SameTools registry.adapters isThere w
        (Evaluator.ensureAvailable context adapter request w).2 := by
  obtain ⟨missing, check⟩ := steady.check
  obtain ⟨answer, same⟩ := check w
  rw [there, if_pos rfl] at answer
  rw [Evaluator.ensureAvailable_apply]
  rcases ran : adapter.check context w with ⟨_ | _, w₁⟩
  · simp [ran] at answer
  · exact ⟨rfl, by simpa [ran] using same⟩

/-- Where the tool is missing, the installation decides. -/
theorem ensure_missing (steady : adapter.Steady registry.adapters isThere context) {w : W}
    (missing : isThere adapter w = false) (known : adapter ∈ registry.adapters) :
    ∃ w', SameTools registry.adapters isThere w w' ∧
      Evaluator.ensureAvailable context adapter request w =
        match adapter.install context request w' with
        | (.ok _, w'') => ((adapter.check context w'').1.mapError (.installFailed adapter.name),
            (adapter.check context w'').2)
        | (.error failure, w'') => (.error (.installFailed adapter.name failure), w'') := by
  obtain ⟨failure, check⟩ := steady.check
  obtain ⟨answer, same⟩ := check w
  rw [missing] at answer
  rw [Evaluator.ensureAvailable_apply]
  rcases ran : adapter.check context w with ⟨_ | _, w₁⟩
  · rw [ran] at same
    obtain ⟨answer', same'⟩ := check w₁
    rw [same adapter known, missing] at answer'
    rcases ran' : adapter.check context w₁ with ⟨_ | _, w₂⟩
    · rw [ran'] at same'
      exact ⟨w₂, same.trans same', by simp only [ran']⟩
    · simp [ran'] at answer'
  · simp [ran] at answer

/-- What comes of a missing tool whose installation does not provide it. -/
def unprovided (adapter : Adapter W) (missing : Failure) : Except Failure Unit → Failure
  | .ok _ => .installFailed adapter.name missing
  | .error failure => .installFailed adapter.name failure

theorem ensure_constant (steady : adapter.Steady registry.adapters isThere context)
    (known : adapter ∈ registry.adapters)
    (constant : Constant registry.adapters isThere (adapter.install context request)) :
    ∃ failure, ∀ w,
      (Evaluator.ensureAvailable context adapter request w).1 =
        (if isThere adapter w then .ok () else .error failure) ∧
      SameTools registry.adapters isThere w
        (Evaluator.ensureAvailable context adapter request w).2 := by
  obtain ⟨missing, check⟩ := steady.check
  obtain ⟨answer, fixed⟩ := constant
  refine ⟨unprovided adapter missing answer, fun w => ?_⟩
  cases there : isThere adapter w with
  | true => exact steady.ensure_there there
  | false =>
    obtain ⟨w', same, ran⟩ := steady.ensure_missing there known
    obtain ⟨answered, kept⟩ := fixed w'
    have still : isThere adapter (adapter.install context request w').2 = false := by
      rw [kept adapter known, same adapter known, there]
    rw [ran]
    rcases installed : adapter.install context request w' with ⟨_ | _, w''⟩
    · rw [installed] at answered kept
      subst answered
      exact ⟨rfl, same.trans kept⟩
    · rw [installed] at answered kept still
      subst answered
      obtain ⟨looked, kept'⟩ := check w''
      rw [still] at looked
      exact ⟨by simp [looked, Except.mapError, unprovided], same.trans (kept.trans kept')⟩

theorem ensure_provides (steady : adapter.Steady registry.adapters isThere context)
    (known : adapter ∈ registry.adapters)
    (provides : Provides registry.adapters isThere adapter (adapter.install context request))
    (w : W) :
    (Evaluator.ensureAvailable context adapter request w).1 = .ok () ∧
      Agree registry isThere context request w
        (Evaluator.ensureAvailable context adapter request w).2 := by
  cases there : isThere adapter w with
  | true =>
    obtain ⟨done, same⟩ := steady.ensure_there there
    exact ⟨done, same.agree⟩
  | false =>
    obtain ⟨missing, check⟩ := steady.check
    obtain ⟨w', same, ran⟩ := steady.ensure_missing there known
    obtain ⟨answered, put, others⟩ := provides w'
    have agree : Agree registry isThere context request w'
        (adapter.install context request w').2 := by
      intro other listed
      by_cases own : other = adapter
      · exact .inl (own ▸ provides)
      · exact .inr (others other listed own)
    rw [ran]
    rcases installed : adapter.install context request w' with ⟨_ | _, w''⟩
    · simp [installed] at answered
    · rw [installed] at put agree
      obtain ⟨looked, kept⟩ := check w''
      rw [put, if_pos rfl] at looked
      exact ⟨by simp [looked, Except.mapError], same.agree.trans (agree.trans kept.agree)⟩

/-- Two worlds that agree see a tool made available alike. -/
theorem ensure_alike (steady : adapter.Steady registry.adapters isThere context)
    (known : adapter ∈ registry.adapters) :
    Alike registry isThere context request
      (Evaluator.ensureAvailable context adapter request) := by
  -- A tool that is put there on demand may be there in one of the worlds only, but then it is made
  -- available in both; any other tool is there in both or in neither.
  by_cases provides : Provides registry.adapters isThere adapter (adapter.install context request)
  · intro w
    obtain ⟨done, agree⟩ := steady.ensure_provides known provides w
    exact ⟨agree, fun w' _ => (steady.ensure_provides known provides w').1.trans done.symm⟩
  · obtain ⟨failure, answers⟩ :=
      steady.ensure_constant known ((steady.install request).resolve_left provides)
    refine fun w => ⟨(answers w).2.agree, fun w' agree => ?_⟩
    have same := (agree adapter known).resolve_left provides
    rw [(answers w').1, (answers w).1, same]

end Adapter.Steady

namespace AdapterRegistry

theorem mem_of_find? {adapters : List (Adapter W)} {wanted : Adapter W → Bool} {failure : Failure}
    {adapter : Adapter W}
    (found : (match adapters.find? wanted with
      | some first => Except.ok first
      | none => .error failure) = .ok adapter) : adapter ∈ adapters := by
  cases first : adapters.find? wanted with
  | none =>
    rw [first] at found
    cases found
  | some _ =>
    rw [first] at found
    cases found
    exact List.mem_of_find?_eq_some first

theorem mem_of_get {name : String} {adapter : Adapter W} (found : registry.get name = .ok adapter) :
    adapter ∈ registry.adapters :=
  mem_of_find? found

theorem mem_of_find {language category : String} {adapter : Adapter W}
    (found : registry.find language category = .ok adapter) : adapter ∈ registry.adapters :=
  mem_of_find? found

end AdapterRegistry

namespace Evaluator

theorem findings_alike {adapter : Adapter W}
    (steady : adapter.Steady registry.adapters isThere context)
    (known : adapter ∈ registry.adapters) (request : InstallRequest) (rule : Rule)
    (files : List String) :
    Alike registry isThere context request (findings context adapter request rule files) :=
  (steady.ensure_alike known).bind fun _ =>
    (steady.configure rule).alike.bind fun config =>
      (steady.execute config files).alike.bind fun output => (steady.parse output).alike

/-- An adapter that a rule comes by is one of the evaluator's. -/
theorem adapterFor_mem {evaluator : Evaluator W} {rule : Rule} {language : String}
    {pinned : Option String} {adapter : Adapter W}
    (found : evaluator.adapterFor rule language pinned = .ok adapter)
    (registry_eq : evaluator.adapters = some registry) : adapter ∈ registry.adapters := by
  have resolved := evaluator.adapterFor_resolves rule language pinned
  generalize evaluator.adapterFor rule language pinned = outcome at found resolved
  cases resolved with
  | uninitialized | malformed | misdirected => cases found
  | named here =>
    obtain rfl := Option.some.inj (here.symm.trans registry_eq)
    exact AdapterRegistry.mem_of_get found
  | found here =>
    obtain rfl := Option.some.inj (here.symm.trans registry_eq)
    exact AdapterRegistry.mem_of_find found

end Evaluator

/-- A result without the time it took. -/
def RuleResult.timeless (result : RuleResult) : RuleResult :=
  { result with duration := 0 }

/-- Evaluations in worlds that agree have the same outcome but for the time, and end in worlds that
agree. -/
theorem Evaluator.run_alike [Clock W] (evaluator : Evaluator W)
    (steady : registry.Steady isThere context) (registry_eq : evaluator.adapters = some registry)
    (rule : Rule) (files : List String) (pinned : Option String) (suggestion : Option Suggestion)
    (w : W) :
    Agree registry isThere context evaluator.install w
        (evaluator.run context rule files pinned suggestion w).2 ∧
      ∀ w', Agree registry isThere context evaluator.install w w' →
        (evaluator.run context rule files pinned suggestion w').1.map RuleResult.timeless =
          (evaluator.run context rule files pinned suggestion w).1.map RuleResult.timeless := by
  have clock (w : W) : Agree registry isThere context evaluator.install w (Clock.read w).2 :=
    (steady.clock w).agree
  simp only [run_apply]
  generalize Selector.keep rule.selector files = kept
  by_cases empty : kept = []
  · simpa only [empty, ↓reduceIte, implies_true, and_true] using clock w
  simp only [empty, ↓reduceIte]
  cases found : evaluator.adapterFor rule (Selector.language rule.selector kept) pinned with
  | error failure => exact ⟨clock w, fun _ _ => rfl⟩
  | ok adapter =>
    have known := adapterFor_mem found registry_eq
    obtain ⟨stays, answers⟩ := findings_alike (steady.adapter adapter known) known
      evaluator.install rule kept (Clock.read w).2
    have moved (w' : W) (agree : Agree registry isThere context evaluator.install w w') :=
      answers (Clock.read w').2 ((clock w).symm.trans (agree.trans (clock w')))
    dsimp only
    rcases here : findings context adapter evaluator.install rule kept (Clock.read w).2 with
      ⟨failure | list, v⟩
    · rw [here] at stays moved
      refine ⟨(clock w).trans stays, fun w' agree => ?_⟩
      have same := moved w' agree
      generalize findings context adapter evaluator.install rule kept (Clock.read w').2 = there
        at same
      obtain ⟨_, _⟩ := there
      cases same
      rfl
    · rw [here] at stays moved
      refine ⟨(clock w).trans (stays.trans (clock v)), fun w' agree => ?_⟩
      have same := moved w' agree
      generalize findings context adapter evaluator.install rule kept (Clock.read w').2 = there
        at same
      obtain ⟨_, _⟩ := there
      cases same
      rfl

end PolicyLint
