import Mathlib.Data.List.Basic
/-!
Texts in front of others. Main statement: where each ends in a way that is seen, whatever follows it, they
are told apart from what they form with what follows.
-/
namespace PolicyLint.Text

/-- Lists that stop in the same way are told apart by what they form with what follows. -/
theorem append_inj_of_stop {α : Type} {p : α → Bool} {xs ys rest rest' : List α}
    (inside : ∀ c ∈ xs, p c = true) (inside' : ∀ c ∈ ys, p c = true)
    (stop : ∀ c, rest.head? = some c → p c = false) (stop' : ∀ c, rest'.head? = some c → p c = false)
    (same : xs ++ rest = ys ++ rest') : xs = ys ∧ rest = rest' := by
  induction xs generalizing ys with
  | nil =>
    cases ys with
    | nil => exact ⟨rfl, same⟩
    | cons y ys =>
      have stopped := stop y (congrArg List.head? same)
      exact absurd (inside' y List.mem_cons_self) (Bool.eq_false_iff.mp stopped)
  | cons x xs ih =>
    cases ys with
    | nil =>
      have stopped := stop' x (congrArg List.head? same).symm
      exact absurd (inside x List.mem_cons_self) (Bool.eq_false_iff.mp stopped)
    | cons y ys =>
      obtain ⟨rfl, tails⟩ := List.cons.inj same
      obtain ⟨rfl, rests⟩ := ih (fun c h => inside c (List.mem_cons_of_mem x h))
        (fun c h => inside' c (List.mem_cons_of_mem x h)) tails
      exact ⟨rfl, rests⟩

/-- A mark ends what does not hold it. -/
theorem append_mark_inj {α : Type} [DecidableEq α] {mark : α} {xs ys rest rest' : List α}
    (free : mark ∉ xs) (free' : mark ∉ ys) (same : xs ++ mark :: rest = ys ++ mark :: rest') :
    xs = ys ∧ rest = rest' := by
  have unmarked : ∀ {xs : List α}, mark ∉ xs → ∀ c ∈ xs, decide (c ≠ mark) = true :=
    fun free c member => decide_eq_true fun equals => free (equals ▸ member)
  obtain ⟨parts, rests⟩ := append_inj_of_stop (unmarked free) (unmarked free')
    (by simp) (by simp) same
  exact ⟨parts, (List.cons.inj rests).2⟩

/-- Texts none of which starts another one, whatever follows, are told from what they form in a row. -/
theorem flatMap_inj_of_append {α β : Type} {text : α → List β} {Good : α → Prop}
    (nonempty : ∀ a, text a ≠ [])
    (told : ∀ {a b rest rest'}, Good a → Good b → text a ++ rest = text b ++ rest' →
      a = b ∧ rest = rest')
    {as bs : List α} (good : ∀ a ∈ as, Good a) (good' : ∀ b ∈ bs, Good b)
    (same : as.flatMap text = bs.flatMap text) : as = bs := by
  induction as generalizing bs with
  | nil =>
    cases bs with
    | nil => rfl
    | cons b bs =>
      rw [List.flatMap_nil, List.flatMap_cons] at same
      exact absurd (List.append_eq_nil_iff.mp same.symm).1 (nonempty b)
  | cons a as ih =>
    cases bs with
    | nil =>
      rw [List.flatMap_nil, List.flatMap_cons] at same
      exact absurd (List.append_eq_nil_iff.mp same).1 (nonempty a)
    | cons b bs =>
      rw [List.flatMap_cons, List.flatMap_cons] at same
      obtain ⟨rfl, rests⟩ := told (good a List.mem_cons_self) (good' b List.mem_cons_self) same
      rw [ih (fun a h => good a (List.mem_cons_of_mem _ h))
        (fun b h => good' b (List.mem_cons_of_mem _ h)) rests]

end PolicyLint.Text
