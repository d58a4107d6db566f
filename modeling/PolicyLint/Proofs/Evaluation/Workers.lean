import Mathlib.Algebra.Order.BigOperators.Group.List
import Mathlib.Algebra.Order.Ring.Nat
import PolicyLint.Proofs.Evaluation.Alone
/-!
Workers. In every round somebody goes on, because who holds a lock is among those that have a worker. Main
statements: with at least one worker every rule of a policy has its outcome, in the order of the policy, and
one worker goes through the rules one after the other.
-/
namespace PolicyLint

namespace Crew

variable [Clock W] {work : Nat → Assignment} {config : EngineConfig W} {crew crew' : Crew W}
  {caller : Nat} {start : Option Start} {callers : List Nat} {workers : Nat}

/-! ### What steps leave alone -/

theorem play_other {other : Nat} {turns : List Nat} (apart : other ∉ turns) :
    (crew.play work turns).2.progress other = crew.progress other := by
  induction turns generalizing crew with
  | nil => rfl
  | cons caller rest ih =>
    rw [List.mem_cons, not_or] at apart
    rw [play_cons]
    exact (ih apart.2).trans ((crew.perform_turn work caller).other apart.1)

theorem Turn.keeps_result {other : Nat} {result : Except Failure RuleResult}
    (turn : Turn work crew caller start crew') (done : crew.progress other = .done result) :
    crew'.progress other = .done result := by
  by_cases same : other = caller
  · subst same
    cases turn with
    | ended => exact done
    | blocked here | entered here | begun here | called here | locked here | started here | released here =>
      rw [here] at done
      cases done
  · rw [turn.other same, done]

/-- A result stays. -/
theorem play_keeps_result {other : Nat} {result : Except Failure RuleResult} (turns : List Nat)
    (done : crew.progress other = .done result) :
    (crew.play work turns).2.progress other = .done result := by
  induction turns generalizing crew with
  | nil => exact done
  | cons caller rest ih => exact ih ((crew.perform_turn work caller).keeps_result done)

/-! ### Rounds come to an end -/

/-- How many steps the evaluations may still take together. -/
def total (crew : Crew W) (callers : List Nat) : Nat :=
  (callers.map fun caller => (crew.progress caller).left).sum

omit [Clock W] in
theorem total_lt (listed : caller ∈ callers)
    (others : ∀ other, other ≠ caller → crew'.progress other = crew.progress other)
    (less : (crew'.progress caller).left < (crew.progress caller).left) :
    crew'.total callers < crew.total callers := by
  refine List.sum_lt_sum _ _ (fun other _ => ?_) ⟨caller, listed, less⟩
  by_cases same : other = caller
  · exact same ▸ less.le
  · rw [others other same]

/-- Steps never add to what is left, and they take from it when one of them would at once. -/
theorem play_total (sound : crew.Sound work config) {turns : List Nat} (among : turns ⊆ callers) :
    (crew.play work turns).2.total callers ≤ crew.total callers ∧
      ((∃ caller ∈ turns,
        ((crew.perform work caller).2.progress caller).left < (crew.progress caller).left) →
        (crew.play work turns).2.total callers < crew.total callers) := by
  induction turns generalizing crew with
  | nil => exact ⟨Nat.le_refl _, by simp⟩
  | cons first rest ih =>
    have turn := crew.perform_turn work first
    obtain ⟨listed, among⟩ := List.cons_subset.mp among
    obtain ⟨le, lt⟩ := ih (sound.step turn) among
    rw [play_cons]
    by_cases less : ((crew.perform work first).2.progress first).left < (crew.progress first).left
    · have now := total_lt listed (fun _ => turn.other) less
      exact ⟨le.trans now.le, fun _ => le.trans_lt now⟩
    · -- The first step changes nothing, so it is another that goes on.
      have still : (crew.perform work first).2 = crew := by
        rcases turn.lowers sound with ⟨_, _, still⟩ | ⟨_, _, _, _, still⟩ | less'
        · exact still
        · exact still
        · exact absurd less' less
      rw [still] at le lt ⊢
      refine ⟨le, ?_⟩
      rintro ⟨caller, member, goes⟩
      rcases List.mem_cons.mp member with rfl | later
      · exact absurd goes less
      · exact lt ⟨caller, later, goes⟩

theorem mem_take_filter {p : α → Bool} {a : α} {n : Nat} {l : List α} (member : a ∈ l.take n)
    (holds : p a = true) : a ∈ (l.filter p).take n := by
  induction l generalizing n with
  | nil => simp at member
  | cons b l ih =>
    cases n with
    | zero => simp at member
    | succ n =>
      rcases List.mem_cons.mp member with rfl | later
      · simp [holds]
      · by_cases other : p b = true
        · rw [List.filter_cons_of_pos other]
          exact List.mem_cons_of_mem _ (ih later)
        · rw [List.filter_cons_of_neg other]
          exact List.take_subset_take_left _ (Nat.le_succ n) (ih later)

omit [Clock W] in
theorem mem_unfinished : caller ∈ crew.unfinished callers ↔
    caller ∈ callers ∧ ∀ result, crew.progress caller ≠ .done result := by
  rw [unfinished, List.mem_filter]
  refine and_congr_right fun _ => ?_
  cases crew.progress caller <;> simp [Progress.result?]

omit [Clock W] in
theorem take_unfinished_subset (crew : Crew W) (callers : List Nat) (workers : Nat) :
    (crew.unfinished callers).take workers ⊆ callers :=
  fun _ member => (mem_unfinished.mp (List.mem_of_mem_take member)).1

omit [Clock W] in
theorem unfinished_eq_nil : crew.unfinished callers = [] ↔
    ∀ caller ∈ callers, ∃ result, crew.progress caller = .done result := by
  rw [List.eq_nil_iff_forall_not_mem]
  refine forall_congr' fun caller => ?_
  simp [mem_unfinished]

omit [Clock W] in
theorem total_eq_zero : crew.total callers = 0 ↔ crew.unfinished callers = [] := by
  rw [unfinished_eq_nil, total, List.sum_eq_zero_iff, List.forall_mem_map]
  refine forall₂_congr fun caller _ => ⟨Progress.left_eq_zero, ?_⟩
  rintro ⟨result, done⟩
  rw [done]
  rfl

/-- Evaluations without a result were without one before. -/
theorem unfinished_play (turns : List Nat) : (crew.play work turns).2.unfinished callers =
    (crew.unfinished callers).filter fun caller =>
      ((crew.play work turns).2.progress caller).result?.isNone := by
  rw [unfinished, unfinished, List.filter_filter]
  refine List.filter_congr fun caller _ => ?_
  cases before : crew.progress caller with
  | done result => simp [play_keeps_result turns before, Progress.result?]
  | fresh | engaged | under => simp [Progress.result?]

/-- Who holds a lock has a worker. -/
def Manned (callers : List Nat) (workers : Nat) (crew : Crew W) : Prop :=
  ∀ caller engine, (crew.progress caller).locks? = some engine →
    caller ∈ (crew.unfinished callers).take workers

theorem Manned.round (manned : crew.Manned callers workers) :
    (crew.play work ((crew.unfinished callers).take workers)).2.Manned callers workers := by
  intro caller engine locked
  rw [unfinished_play]
  refine mem_take_filter ?_ ?_
  · by_contra absent
    rw [play_other absent] at locked
    exact absent (manned caller engine locked)
  · cases here : ((crew.play work ((crew.unfinished callers).take workers)).2.progress caller) with
    | done result =>
      rw [here] at locked
      cases locked
    | fresh | engaged | under => rfl

/-- While an evaluation is left, one of those that have a worker goes on. -/
theorem Manned.goesOn (manned : crew.Manned callers workers) (sound : crew.Sound work config)
    (staffed : 0 < workers) (left : crew.unfinished callers ≠ []) :
    ∃ caller ∈ (crew.unfinished callers).take workers,
      ((crew.perform work caller).2.progress caller).left < (crew.progress caller).left := by
  obtain ⟨first, rest, here⟩ := List.exists_cons_of_ne_nil left
  obtain ⟨n, rfl⟩ := Nat.exists_eq_add_of_lt staffed
  have member : first ∈ (crew.unfinished callers).take (0 + n + 1) := by simp [here]
  have unfinished := (mem_unfinished.mp (List.mem_of_mem_take member)).2
  rcases (crew.perform_turn work first).lowers sound with
    ⟨result, done, -⟩ | ⟨job, other, -, locked, -⟩ | less
  · exact absurd done (unfinished result)
  · exact ⟨other, manned other job.engine locked,
      (crew.perform_turn work other).lowers_locked sound locked⟩
  · exact ⟨first, member, less⟩

/-- As many rounds as steps are left are enough. -/
theorem rounds_done (sound : crew.Sound work config) (manned : crew.Manned callers workers)
    (staffed : 0 < workers) {more : Nat} (enough : crew.total callers ≤ more) :
    ∀ caller ∈ callers, ∃ result,
      (crew.rounds work callers workers more).progress caller = .done result := by
  induction more generalizing crew with
  | zero => exact unfinished_eq_nil.mp (total_eq_zero.mp (Nat.le_zero.mp enough))
  | succ more ih =>
    obtain ⟨le, lt⟩ := play_total sound (crew.take_unfinished_subset callers workers)
    refine ih (sound.play _) manned.round ?_
    by_cases empty : crew.unfinished callers = []
    · rw [total_eq_zero.mpr empty] at le
      omega
    · have := lt (manned.goesOn sound staffed empty)
      omega

omit [Clock W] in
theorem total_le (crew : Crew W) (callers : List Nat) :
    crew.total callers ≤ stepsAtMost * callers.length := by
  have le := List.sum_le_card_nsmul (callers.map fun caller => (crew.progress caller).left) stepsAtMost ?_
  · simpa [total, Nat.mul_comm] using le
  · intro left member
    obtain ⟨caller, -, rfl⟩ := List.mem_map.mp member
    exact Progress.left_le _

/-- Workers come to an end with every evaluation. -/
theorem labour_done (sound : crew.Sound work config) (manned : crew.Manned callers workers)
    (staffed : 0 < workers) :
    ∀ caller ∈ callers, ∃ result, (crew.labour work callers workers).progress caller = .done result :=
  rounds_done sound manned staffed (crew.total_le callers)

/-- What workers do is a run of the crew like any other. -/
theorem rounds_eq_play (crew : Crew W) (callers : List Nat) (workers more : Nat) :
    ∃ turns, turns ⊆ callers ∧ crew.rounds work callers workers more = (crew.play work turns).2 := by
  induction more generalizing crew with
  | zero => exact ⟨[], List.nil_subset _, rfl⟩
  | succ more ih =>
    obtain ⟨turns, among, same⟩ := ih (crew.play work ((crew.unfinished callers).take workers)).2
    refine ⟨(crew.unfinished callers).take workers ++ turns,
      List.append_subset.mpr ⟨crew.take_unfinished_subset callers workers, among⟩, ?_⟩
    rw [play_append]
    exact same

/-! ### One worker -/

omit [Clock W] in
theorem Manned.lone {first : Nat} {rest : List Nat} (manned : crew.Manned callers 1)
    (here : crew.unfinished callers = first :: rest) : crew.Lone first := by
  refine fun other apart => Option.eq_none_iff_forall_ne_some.mpr fun engine locked => apart ?_
  simpa [here] using manned other engine locked

/-- After a step of the first that is left, the others are left, and the first unless it is done. -/
theorem unfinished_first (once : callers.Nodup) {first : Nat} {rest : List Nat}
    (here : crew.unfinished callers = first :: rest) :
    (crew.perform work first).2.unfinished callers =
      if ((crew.perform work first).2.progress first).result?.isNone then first :: rest else rest := by
  have once : (first :: rest).Nodup := here ▸ once.filter _
  have others : rest.filter (fun other =>
      ((crew.perform work first).2.progress other).result?.isNone) = rest := by
    refine List.filter_eq_self.mpr fun other member => ?_
    have apart : other ≠ first := fun same => (List.nodup_cons.mp once).1 (same ▸ member)
    have left : other ∈ crew.unfinished callers := here ▸ List.mem_cons_of_mem _ member
    rw [(crew.perform_turn work first).other apart]
    exact (List.mem_filter.mp left).2
  have filtered : (crew.perform work first).2.unfinished callers = _ := crew.unfinished_play [first]
  rw [filtered, here]
  simp only [play, List.filter_cons, others]

/-- One worker goes through the evaluations one after the other. -/
theorem rounds_one (once : callers.Nodup) (sound : crew.Sound work config)
    (manned : crew.Manned callers 1) {more : Nat} (enough : crew.total callers ≤ more) :
    crew.rounds work callers 1 more = (crew.unfinished callers).foldl (settle work config) crew := by
  induction more generalizing crew with
  | zero =>
    rw [total_eq_zero.mp (Nat.le_zero.mp enough)]
    rfl
  | succ more ih =>
    have ih := ih (sound.play ((crew.unfinished callers).take 1)) manned.round
    rw [rounds]
    cases here : crew.unfinished callers with
    | nil =>
      rw [here] at ih
      have rested : crew.rounds work callers 1 more =
          (crew.unfinished callers).foldl (settle work config) crew :=
        ih ((total_eq_zero.mpr here).trans_le (Nat.zero_le _))
      rwa [here] at rested
    | cons first rest =>
      have turn := crew.perform_turn work first
      have lone := manned.lone here
      obtain ⟨listed, unfinished⟩ := mem_unfinished.mp (here ▸ List.mem_cons_self)
      have less : (crew.perform work first).2.total callers < crew.total callers := by
        rcases lone.lowers sound turn with ⟨result, done, -⟩ | less
        · exact absurd done (unfinished result)
        · exact total_lt listed (fun _ => turn.other) less
      rw [here] at ih
      refine (ih (Nat.le_of_lt_succ (less.trans_le enough))).trans ?_
      simp only [List.take_succ_cons, List.take_zero, play]
      -- The step has changed nothing about how the first will end, so it does not matter whether it has.
      rw [unfinished_first once here, List.foldl_cons, ← turn.settle sound]
      cases after : (crew.perform work first).2.progress first with
      | done result => rw [(lone.step turn).settle_done (sound.step turn) after]; rfl
      | fresh | engaged | under => rfl

omit [Clock W] in
theorem begun_manned (registry : EngineRegistry W) (w : W) (callers : List Nat) (workers : Nat) :
    (begun registry w).Manned callers workers :=
  nofun

theorem begun_labour_one {registry : EngineRegistry W} (stocked : EngineRegistry.Stocked config registry)
    (once : callers.Nodup) (w : W) :
    (begun registry w).labour work callers 1 = callers.foldl (settle work config) (begun registry w) := by
  have all : (begun registry w).unfinished callers = callers := List.filter_eq_self.mpr fun _ _ => rfl
  have one := rounds_one once (begun_sound work stocked w) (begun_manned registry w callers 1)
    (total_le _ callers)
  rwa [all] at one

theorem foldl_settle_other (work : Nat → Assignment) (config : EngineConfig W) (crew : Crew W) {other : Nat}
    {order : List Nat} (apart : other ∉ order) :
    (order.foldl (settle work config) crew).progress other = crew.progress other := by
  induction order generalizing crew with
  | nil => rfl
  | cons caller rest ih =>
    rw [List.mem_cons, not_or] at apart
    exact (ih _ apart.2).trans (settle_other apart.1)

end Crew

/-! ### The rules of a policy -/

namespace Report

open Crew

variable [Clock W] {context : Context} {files : List String} {scope : Scope} {config : EngineConfig W}

/-- Rules that are evaluated one after the other by a crew. -/
theorem runAll_settle (scope : Scope) (config : EngineConfig W) (work : Nat → Assignment)
    (same : ∀ caller, (work caller).context = context ∧ (work caller).files = files)
    {callers : List Nat} (once : callers.Nodup) (crew : Crew W)
    (fresh : ∀ caller ∈ callers, crew.progress caller = .fresh) :
    let settled := (callers.filter fun caller => (exclusion? scope (work caller).rule).isNone).foldl
      (settle work config) crew
    (callers.filterMap fun caller => outcome? scope (work caller).rule (settled.progress caller),
        settled.registry, settled.world) =
      runAll context files scope (callers.map fun caller => (work caller).rule)
        (crew.registry, crew.world) := by
  induction callers generalizing crew with
  | nil => rfl
  | cons first rest ih =>
    obtain ⟨apart, once⟩ := List.nodup_cons.mp once
    obtain ⟨now, later⟩ := List.forall_mem_cons.mp fresh
    cases excluded : exclusion? scope (work first).rule with
    | some exclusion =>
      rw [List.filter_cons_of_neg (by simp [excluded])]
      simp only [List.map_cons, runAll, outcome, excluded, ← ih once _ later, List.filterMap_cons, outcome?]
    | none =>
      rw [List.filter_cons_of_pos (by simp [excluded]), List.foldl_cons]
      have still : ∀ caller ∈ rest, (crew.settle work config first).progress caller = .fresh := by
        intro caller member
        have other : caller ≠ first := fun same => apart (same ▸ member)
        rw [settle_other other]
        exact later caller member
      have absent : first ∉ rest.filter fun caller => (exclusion? scope (work caller).rule).isNone :=
        fun member => apart (List.mem_filter.mp member).1
      have others := ih once _ still
      have kept := foldl_settle_other work config (crew.settle work config first) absent
      rw [settle_fresh config now, (same first).1, (same first).2] at others kept ⊢
      simp only [replace_same] at others kept
      simp only [List.map_cons, runAll, outcome, excluded, ← others, List.filterMap_cons, outcome?, kept,
        Progress.result?, Option.map_some]

omit [Clock W] in
theorem rules_of_indices (first : Rule) (rest : List Rule) :
    (List.range (rest.length + 1)).map (fun caller => (first :: rest).getD caller first) = first :: rest := by
  refine List.ext_getElem (by simp) fun caller _ inRange => ?_
  rw [List.getElem_map, List.getElem_range, List.getD_eq_getElem?_getD, List.getElem?_eq_getElem inRange,
    Option.getD_some]

variable {registry : EngineRegistry W}

/-- One worker goes through the rules in order. -/
theorem runBy_one (stocked : EngineRegistry.Stocked config registry) (rules : List Rule) (w : W) :
    runBy 1 context files scope rules (registry, w) = runAll context files scope rules (registry, w) := by
  cases rules with
  | nil => rfl
  | cons first rest =>
    have once : (List.range (rest.length + 1)).Nodup := List.nodup_range
    simp only [runBy, begun_labour_one stocked (once.filter _)]
    let work : Nat → Assignment := fun caller => ⟨context, (first :: rest).getD caller first, files⟩
    have settled := runAll_settle scope config work (fun _ => ⟨rfl, rfl⟩) once (begun registry w)
      fun _ _ => rfl
    rw [rules_of_indices] at settled
    exact settled

theorem validateBy_eq (stocked : EngineRegistry.Stocked config registry) {workers : Nat} (staffed : 0 < workers)
    (policy : Policy) (w : W) :
    validateBy workers context policy files scope (registry, w) =
      let r := runBy workers context files scope policy.rules (registry, w)
      (Report.of r.1 files.length, r.2) := by
  unfold validateBy
  split
  · obtain rfl : workers = 1 := by omega
    rw [runBy_one stocked]
    rfl
  · rfl

omit [Clock W] in
theorem outcome?_ruleId {rule : Rule} {progress : Progress W}
    (done : exclusion? scope rule = none → ∃ result, progress = .done result) :
    (outcome? scope rule progress).map RuleOutcome.ruleId = some rule.id := by
  unfold outcome?
  cases excluded : exclusion? scope rule with
  | some exclusion => rfl
  | none =>
    obtain ⟨result, rfl⟩ := done excluded
    cases result <;> rfl

/-- With at least one worker every rule has its outcome, and the outcomes stand in the order of the rules. -/
theorem runBy_complete (stocked : EngineRegistry.Stocked config registry) {workers : Nat}
    (staffed : 0 < workers) (rules : List Rule) (w : W) :
    (runBy workers context files scope rules (registry, w)).1.map RuleOutcome.ruleId =
      rules.map Rule.id := by
  cases rules with
  | nil => rfl
  | cons first rest =>
    let rule := fun caller => (first :: rest).getD caller first
    let work : Nat → Assignment := fun caller => ⟨context, rule caller, files⟩
    let evaluated := (List.range (rest.length + 1)).filter fun caller =>
      (exclusion? scope (rule caller)).isNone
    let crew := (begun registry w).labour work evaluated workers
    have done := labour_done (begun_sound work stocked w) (begun_manned registry w evaluated workers) staffed
    have each : ∀ caller ∈ List.range (rest.length + 1),
        (outcome? scope (rule caller) (crew.progress caller)).map RuleOutcome.ruleId =
          .some (rule caller).id := by
      refine fun caller listed => outcome?_ruleId fun included => done caller ?_
      exact List.mem_filter.mpr ⟨listed, by rw [included]; rfl⟩
    calc ((List.range (rest.length + 1)).filterMap fun caller =>
          outcome? scope (rule caller) (crew.progress caller)).map RuleOutcome.ruleId
        = (List.range (rest.length + 1)).map fun caller => (rule caller).id := by
          rw [List.map_filterMap, List.filterMap_congr each, List.filterMap_eq_map']
      _ = (first :: rest).map Rule.id := by
          rw [← rules_of_indices first rest, List.map_map]
          rfl

end Report
end PolicyLint
