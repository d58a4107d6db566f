import Mathlib.Data.List.Perm.Basic
import Mathlib.Data.List.Nodup
import PolicyLint.Json.Value
/-!
Maps by what stands under their keys: behind a new member, without one, and in another order.
-/
namespace PolicyLint.Fields

theorem get?_nil (key : String) : Fields.get? key [] = none := rfl

theorem get?_cons (key name : String) (value : Json) (rest : Fields) :
    Fields.get? key ((name, value) :: rest) = if key = name then some value else rest.get? key := by
  unfold Fields.get?
  by_cases same : key = name
  · rw [if_pos same, same, List.lookup_cons_self]
  · rw [if_neg same, List.lookup_cons, beq_eq_false_iff_ne.mpr same]

theorem get?_insert (key name : String) (value : Json) (fields : Fields) :
    (Fields.insert name value fields).get? key = if key = name then some value else fields.get? key := by
  induction fields with
  | nil => rw [insert, get?_cons]
  | cons head rest ih =>
    obtain ⟨first, old⟩ := head
    rw [insert]
    by_cases replaced : first = name
    · subst replaced
      rw [if_pos rfl, get?_cons, get?_cons]
      split <;> rfl
    · rw [if_neg replaced, get?_cons, get?_cons, ih]
      by_cases here : key = first
      · subst here
        rw [if_pos rfl, if_pos rfl, if_neg replaced]
      · rw [if_neg here, if_neg here]

def without (name : String) (fields : Fields) : Fields :=
  fields.filter fun member => member.1 ≠ name

theorem get?_without (key name : String) (fields : Fields) :
    (fields.without name).get? key = if key = name then none else fields.get? key := by
  induction fields with
  | nil => simp [without, get?_nil]
  | cons head rest ih =>
    obtain ⟨first, value⟩ := head
    rw [without] at ih
    rw [without, List.filter_cons, get?_cons]
    by_cases dropped : first = name
    · subst dropped
      simp only [ne_eq, not_true_eq_false, decide_false, Bool.false_eq_true, if_false, ih]
      split <;> rfl
    · simp only [ne_eq, dropped, not_false_eq_true, decide_true, if_true, get?_cons, ih]
      by_cases here : key = first
      · subst here
        rw [if_pos rfl, if_pos rfl, if_neg dropped]
      · rw [if_neg here, if_neg here]

/-- In a map with each key once, the order does not count. -/
theorem get?_perm {fields fields' : Fields} (perm : fields.Perm fields')
    (once : (fields.map Prod.fst).Nodup) (key : String) : fields.get? key = fields'.get? key := by
  induction perm with
  | nil => rfl
  | cons head _ ih =>
    rw [get?_cons, get?_cons, ih (List.nodup_cons.mp once).2]
  | swap first second rest =>
    have apart : second.1 ≠ first.1 := fun same => by
      simp [same] at once
    rw [get?_cons, get?_cons, get?_cons, get?_cons]
    by_cases here : key = second.1
    · rw [if_pos here, if_neg (here ▸ apart), if_pos here]
    · rw [if_neg here, if_neg here]
  | trans left _ ih ih' =>
    exact (ih once).trans (ih' ((left.map Prod.fst).nodup once))

end PolicyLint.Fields
