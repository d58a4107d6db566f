import PolicyLint.Text.Order
/-!
Texts in order. Sorting keeps the texts, and with each of them once they are in strict order.
-/
namespace PolicyLint.Text

theorem mem_sorted {texts : List String} {text : String} : text ∈ sorted texts ↔ text ∈ texts :=
  List.mem_mergeSort

theorem sorted_ordered (texts : List String) : (sorted texts).Pairwise (· ≤ ·) := by
  have ordered := @List.pairwise_mergeSort _ (fun a b : String => decide (a ≤ b))
    (fun _ _ _ => by simpa using String.le_trans) (fun a b => by simpa using String.le_total a b) texts
  exact ordered.imp of_decide_eq_true

theorem sorted_strict {texts : List String} (once : texts.Nodup) : (sorted texts).Pairwise (· < ·) := by
  have once' : (sorted texts).Nodup := (List.mergeSort_perm texts _).nodup_iff.mpr once
  exact (sorted_ordered texts).imp₂ (fun _ _ => Std.lt_of_le_of_ne) once'

theorem mem_dropRepeats {texts : List String} {text : String} :
    text ∈ dropRepeats texts ↔ text ∈ texts := by
  induction texts using dropRepeats.induct with
  | case1 a rest ih => simp [dropRepeats, ih]
  | case2 a b rest other ih => rw [dropRepeats, if_neg other, List.mem_cons, List.mem_cons, ih]
  | case3 texts short => rw [dropRepeats]; exact short

theorem dropRepeats_strict {texts : List String} (ordered : texts.Pairwise (· ≤ ·)) :
    (dropRepeats texts).Pairwise (· < ·) := by
  induction texts using dropRepeats.induct with
  | case1 a rest ih =>
    rw [dropRepeats, if_pos rfl]
    exact ih ordered.of_cons
  | case2 a b rest other ih =>
    obtain ⟨first, later⟩ := List.pairwise_cons.mp ordered
    rw [dropRepeats, if_neg other, List.pairwise_cons]
    refine ⟨fun c member => ?_, ih later⟩
    -- Everything behind `b` is no less than `b`, which is greater than `a`.
    have least : b ≤ c := by
      rcases List.mem_cons.mp (mem_dropRepeats.mp member) with rfl | behind
      · exact String.le_refl c
      · exact List.rel_of_pairwise_cons later behind
    have greater : a < b := Std.lt_of_le_of_ne (first b List.mem_cons_self) other
    exact Std.lt_of_lt_of_le greater least
  | case3 texts short =>
    rcases texts with _ | ⟨a, _ | ⟨b, rest⟩⟩
    · exact .nil
    · exact List.pairwise_singleton _ a
    · exact absurd rfl (short a b rest)

theorem mem_sortedDistinct {texts : List String} {text : String} :
    text ∈ sortedDistinct texts ↔ text ∈ texts := by
  rw [sortedDistinct, mem_dropRepeats, mem_sorted]

theorem sortedDistinct_strict (texts : List String) : (sortedDistinct texts).Pairwise (· < ·) :=
  dropRepeats_strict (sorted_ordered texts)

end PolicyLint.Text
