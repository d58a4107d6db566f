import PolicyLint.Adapter
/-!
Steps of a world, run. A step that is bound to another hands on its world whether it fails or not, so
a failure ends the steps but keeps what was done.
-/
namespace PolicyLint.Action

theorem pure_apply (a : α) (w : W) : (pure a : Action W α) w = (.ok a, w) := rfl

theorem bind_apply (step : Action W α) (next : α → Action W β) (w : W) :
    (step >>= next) w =
      match step w with
      | (.ok a, w') => next a w'
      | (.error failure, w') => (.error failure, w') := by
  simp only [bind, ExceptT.bind, ExceptT.mk, StateT.bind]
  rcases step w with ⟨_ | _, _⟩ <;> rfl

theorem outcome_apply (step : Action W α) (w : W) :
    step.outcome w = (.ok (step w).1, (step w).2) := rfl

theorem adapt_apply (wrap : Failure → Failure) (step : Action W α) (w : W) :
    (ExceptT.adapt wrap step : Action W α) w = ((step w).1.mapError wrap, (step w).2) := rfl

theorem always_apply (step : W → α × W) (w : W) :
    always step w = (.ok (step w).1, (step w).2) := rfl

theorem ofExcept_apply (result : Except Failure α) (w : W) : ofExcept result w = (result, w) := rfl

/-- A step that fails ends the steps it is bound to. -/
theorem bind_error {step : Action W α} {next : α → Action W β} {w : W} {failure : Failure}
    (failed : (step w).1 = .error failure) : (step >>= next) w = (.error failure, (step w).2) := by
  rw [bind_apply]
  rcases h : step w with ⟨_ | _, _⟩ <;> simp_all

theorem bind_ok {step : Action W α} {next : α → Action W β} {w : W} {a : α}
    (done : (step w).1 = .ok a) : (step >>= next) w = next a (step w).2 := by
  rw [bind_apply]
  rcases h : step w with ⟨_ | _, _⟩ <;> simp_all

/-- Steps in a row go well only when each of them does. -/
theorem bind_eq_ok {step : Action W α} {next : α → Action W β} {w : W} {b : β}
    (done : ((step >>= next) w).1 = .ok b) :
    ∃ a w', step w = (.ok a, w') ∧ (next a w').1 = .ok b := by
  rw [bind_apply] at done
  rcases ran : step w with ⟨failure | a, w'⟩
  · rw [ran] at done
    cases done
  · rw [ran] at done
    exact ⟨a, w', rfl, done⟩

end PolicyLint.Action
