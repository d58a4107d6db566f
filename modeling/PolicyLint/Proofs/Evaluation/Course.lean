import Mathlib.Data.List.Basic
import PolicyLint.Proofs.Evaluation.Ledger
/-!
The course of an evaluation: which calls its adapter gets, in which order, and what comes of them. A
tool is looked for at most three times and installed at most once; it is run only right after it was
found and configured, on that configuration and on the files the rule keeps.
-/
namespace PolicyLint

/-- The calls that see to it that a tool is there, and their outcome. -/
inductive Availability (adapter : Adapter W) (context : Context) (request : InstallRequest) :
    List Exchange → Except Failure Unit → Prop where
  | there : Availability adapter context request [.checked context (.ok ())] (.ok ())
  | thereNow (first : Failure) : Availability adapter context request
      [.checked context (.error first), .checked context (.ok ())] (.ok ())
  | notInstalled (first second failure : Failure) : Availability adapter context request
      [.checked context (.error first), .checked context (.error second),
        .installed context request (.error failure)]
      (.error (.installFailed adapter.name failure))
  | stillMissing (first second failure : Failure) : Availability adapter context request
      [.checked context (.error first), .checked context (.error second),
        .installed context request (.ok ()), .checked context (.error failure)]
      (.error (.installFailed adapter.name failure))
  | installed (first second : Failure) : Availability adapter context request
      [.checked context (.error first), .checked context (.error second),
        .installed context request (.ok ()), .checked context (.ok ())] (.ok ())

/-- The calls of an evaluation that has found its adapter, up to the first that fails. -/
inductive Course (adapter : Adapter W) (context : Context) (request : InstallRequest) (rule : Rule)
    (files : List String) : List Exchange → Except Failure (List Finding) → Prop where
  | unavailable {calls : List Exchange} {failure : Failure} :
      Availability adapter context request calls (.error failure) →
      Course adapter context request rule files calls (.error failure)
  | unconfigured {calls : List Exchange} (failure : Failure) :
      Availability adapter context request calls (.ok ()) →
      Course adapter context request rule files
        (calls ++ [.configured rule (.error failure)]) (.error failure)
  | unexecuted {calls : List Exchange} (config : String) (failure : Failure) :
      Availability adapter context request calls (.ok ()) →
      Course adapter context request rule files
        (calls ++ [.configured rule (.ok config), .executed context config files (.error failure)])
        (.error failure)
  | read {calls : List Exchange} (config : String) (output : Output)
      (answer : Except Failure (List Finding)) :
      Availability adapter context request calls (.ok ()) →
      Course adapter context request rule files
        (calls ++ [.configured rule (.ok config), .executed context config files (.ok output),
          .parsed output answer]) answer

variable {adapter : Adapter W} {context : Context} {request : InstallRequest} {rule : Rule}
  {files : List String} {calls : List Exchange}

theorem Availability.installs_le {outcome : Except Failure Unit}
    (seen : Availability adapter context request calls outcome) :
    calls.countP Exchange.isInstall ≤ 1 := by
  cases seen <;> simp [List.countP_cons, Exchange.isInstall]

/-- The last thing that is known of a tool before it is used is that it is there. -/
theorem Availability.seen_last (seen : Availability adapter context request calls (.ok ())) :
    ∃ earlier, calls = earlier ++ [.checked context (.ok ())] := by
  cases seen with
  | there => exact ⟨[], rfl⟩
  | thereNow => exact ⟨[_], rfl⟩
  | installed => exact ⟨[_, _, _], rfl⟩

def Exchange.isExecution : Exchange → Bool
  | .executed .. => true
  | _ => false

theorem Availability.no_execution {outcome : Except Failure Unit}
    (seen : Availability adapter context request calls outcome) :
    ∀ call ∈ calls, call.isExecution = false := by
  cases seen <;> simp [Exchange.isExecution]

theorem Course.installs_le {outcome : Except Failure (List Finding)}
    (course : Course adapter context request rule files calls outcome) :
    calls.countP Exchange.isInstall ≤ 1 := by
  cases course with
  | unavailable seen => exact seen.installs_le
  | unconfigured _ seen | unexecuted _ _ seen | read _ _ _ seen =>
    simpa [Exchange.isInstall] using seen.installs_le

/-- Where a tool is run behind the calls that saw to it and its configuration, it was just found to be
there, and then configured as it is run. -/
theorem Availability.execution (seen : Availability adapter context request calls (.ok ()))
    {config config' : String} {answer answer' : Except Failure Output} {caller : Context}
    {given : List String} {before after tail : List Exchange}
    (rest : ∀ call ∈ tail, call.isExecution = false)
    (split : calls ++ .configured rule (.ok config) ::
        .executed context config files answer :: tail =
      before ++ .executed caller config' given answer' :: after) :
    caller = context ∧ given = files ∧ ∃ earlier,
      before = earlier ++ [.checked context (.ok ()), .configured rule (.ok config')] := by
  have front : Exchange.executed caller config' given answer' ∉
      calls ++ [.configured rule (.ok config)] := by
    intro member
    rcases List.mem_append.mp member with earlier | last
    · exact absurd (seen.no_execution _ earlier) (by simp [Exchange.isExecution])
    · simp at last
  have back : Exchange.executed caller config' given answer' ∉ tail :=
    fun member => absurd (rest _ member) (by simp [Exchange.isExecution])
  -- There is one execution in the list, so the two splittings are one.
  rw [List.append_cons calls, List.append_cons_inj_of_notMem front back] at split
  obtain ⟨rfl, same, -⟩ := split
  obtain ⟨rfl, rfl, rfl, -⟩ := Exchange.executed.inj same
  obtain ⟨earlier, rfl⟩ := seen.seen_last
  exact ⟨rfl, rfl, earlier, by simp⟩

/-- Every execution is of what was configured right before it, and right before that the tool was
seen to be there. -/
theorem Course.execution {outcome : Except Failure (List Finding)}
    (course : Course adapter context request rule files calls outcome)
    {caller : Context} {config : String} {given : List String} {answer : Except Failure Output}
    {before after : List Exchange}
    (split : calls = before ++ .executed caller config given answer :: after) :
    caller = context ∧ given = files ∧ ∃ earlier,
      before = earlier ++ [.checked context (.ok ()), .configured rule (.ok config)] := by
  have member : Exchange.executed caller config given answer ∈ calls := by simp [split]
  cases course with
  | unavailable seen => exact absurd (seen.no_execution _ member) (by simp [Exchange.isExecution])
  | unconfigured _ seen =>
    rcases List.mem_append.mp member with earlier | last
    · exact absurd (seen.no_execution _ earlier) (by simp [Exchange.isExecution])
    · simp at last
  | unexecuted _ _ seen => exact seen.execution (by simp) split
  | read _ _ _ seen => exact seen.execution (by simp [Exchange.isExecution]) split

/-- A course that finds something, or nothing, ends with the output that it was read from. -/
theorem Course.parsed_last {found : List Finding}
    (course : Course adapter context request rule files calls (.ok found)) :
    ∃ earlier output, calls = earlier ++ [.parsed output (.ok found)] := by
  cases course with
  | @read calls config output _ _ =>
    exact ⟨calls ++ [.configured rule (.ok config), .executed context config files (.ok output)], output,
      by simp⟩

/-! ### The evaluator keeps to the course -/

theorem ensureAvailable_follows (adapter : Adapter W) (context : Context)
    (request : InstallRequest) :
    Follows adapter (Availability adapter context request)
      (Evaluator.ensureAvailable context adapter.watched request)
      (Evaluator.ensureAvailable context adapter request) := by
  unfold Evaluator.ensureAvailable
  refine .bind (.outcome (.note _ _)) (by rintro _ _ ⟨_, ⟨⟩, _⟩) ?_
  rintro first _ ⟨_, ⟨⟩, rfl⟩
  cases first with
  | ok => exact .pure _ .there
  | error first =>
    refine .bind (.outcome (.note _ _)) (by rintro _ _ ⟨_, ⟨⟩, _⟩) ?_
    rintro second _ ⟨_, ⟨⟩, rfl⟩
    cases second with
    | ok => exact .pure _ (.thereNow first)
    | error second =>
      refine .bind (.adapt _ (.note _ _)) ?_ ?_
      · rintro _ _ ⟨failure | _, ⟨⟩, rfl⟩
        exact .notInstalled first second failure
      · rintro _ _ ⟨_ | _, ⟨⟩, rfl⟩
        refine (Follows.adapt _ (.note _ _)).weaken ?_
        rintro _ _ ⟨failure | _, rfl, rfl⟩
        · exact .stillMissing first second failure
        · exact .installed first second

theorem findings_follows (adapter : Adapter W) (context : Context) (request : InstallRequest)
    (rule : Rule) (files : List String) :
    Follows adapter (Course adapter context request rule files)
      (Evaluator.findings context adapter.watched request rule files)
      (Evaluator.findings context adapter request rule files) := by
  unfold Evaluator.findings
  refine .bind (ensureAvailable_follows adapter context request) (fun _ _ => .unavailable) ?_
  intro _ calls seen
  refine .bind (.note _ _) ?_ ?_
  · rintro _ failure rfl
    exact .unconfigured failure seen
  rintro config _ rfl
  refine .bind (.note _ _) ?_ ?_
  · rintro _ failure rfl
    exact .unexecuted config failure seen
  rintro output _ rfl
  refine (Follows.note _ _).weaken ?_
  rintro _ answer rfl
  exact .read config output answer seen

end PolicyLint
