import PolicyLint.Report.Display
import PolicyLint.Proofs.Path.Component
/-!
Paths as they are shown. The way from a root to a file is what is left of the file's components when the
root's come first, and else begins with a step up, or there is none. Main statement: an absolute path that
is shown from an absolute root leads back to the file, so files that differ are shown differently.
-/
namespace PolicyLint

open PolicyLint.Path (Component components isAbsolute)

namespace Path

/-! ### The way between two paths -/

theorem difference?_base_nil (passed path : List Component) :
    difference? passed path [] = some (passed ++ path) := by
  cases path <;> rfl

theorem difference?_path_nil (passed base : List Component) :
    difference? passed [] base = some (passed ++ base.map fun _ => .parent) := by
  induction base generalizing passed with
  | nil => exact difference?_base_nil passed []
  | cons b base ih => rw [difference?, ih, List.append_assoc]; rfl

theorem difference?_append (base rest : List Component) :
    difference? [] (base ++ rest) base = some rest := by
  induction base with
  | nil => exact difference?_base_nil [] rest
  | cons b base ih => rw [List.cons_append, difference?, if_pos ⟨rfl, rfl⟩, ih]

/-- A path that does not go through the base is reached by a step up, or not at all. -/
theorem difference?_apart {path base : List Component} (plain : .current ∉ base)
    (apart : ¬ base <+: path) :
    difference? [] path base = none ∨ ∃ way, difference? [] path base = some (.parent :: way) := by
  induction base generalizing path with
  | nil => exact absurd List.nil_prefix apart
  | cons b base ih =>
    obtain ⟨down, later⟩ := not_or.mp (mt List.mem_cons.mpr plain)
    cases path with
    | nil =>
      rw [difference?_path_nil]
      exact .inr ⟨_, rfl⟩
    | cons c path =>
      by_cases same : c = b
      · subst same
        rw [difference?, if_pos ⟨rfl, rfl⟩]
        exact ih later fun through => apart (List.cons_prefix_cons.mpr ⟨rfl, through⟩)
      · rw [difference?, if_neg fun both => same both.2, if_neg (Ne.symm down)]
        split
        · exact .inl rfl
        · exact .inr ⟨_, rfl⟩

theorem current_not_mem {path : String} (absolute : isAbsolute path = true) :
    .current ∉ components path := by
  rw [components_absolute absolute]
  intro member
  have behind := (List.mem_cons.mp member).resolve_left Component.noConfusion
  exact isStep_inner path _ behind

/-- What follows the components of another absolute path are steps. -/
theorem isStep_behind {path base : String} {rest : List Component} (absolute : isAbsolute path = true)
    (rooted : isAbsolute base = true) (through : components path = components base ++ rest) :
    ∀ c ∈ rest, c.IsStep := by
  rw [components_absolute absolute, components_absolute rooted, List.cons_append] at through
  intro c member
  exact isStep_inner path c (by rw [(List.cons_eq_cons.mp through).2]; exact List.mem_append_right _ member)

theorem ofComponents_steps {steps : List Component} (proper : ∀ c ∈ steps, c.IsStep) :
    ofComponents steps = Text.join "/" (steps.map Component.text) := by
  unfold ofComponents
  split
  · exact (proper .root List.mem_cons_self).elim
  · rfl

end Path

namespace Display

/-! ### Shown paths -/

/-- The components of a file behind those of the root, when they do not begin with a step up. -/
def Continues (root file : String) (rest : List Component) : Prop :=
  components file = components root ++ rest ∧ rest.head? ≠ some .parent

variable {root file : String}

theorem path_relative (root : String) (relative : isAbsolute file = false) : path root file = file :=
  if_neg (by simp [relative])

theorem path_continued (absolute : isAbsolute file = true) (rooted : isAbsolute root = true)
    {rest : List Component} (continues : Continues root file rest) :
    path root file = Text.join "/" (rest.map Component.text) := by
  obtain ⟨through, level⟩ := continues
  rw [path, if_pos ⟨absolute, rooted⟩, through, Path.difference?_append]
  rw [← Path.ofComponents_steps (Path.isStep_behind absolute rooted through)]
  split
  · rename_i way above
    obtain rfl := Option.some.inj above
    exact absurd rfl level
  · contradiction
  · rename_i shown
    obtain rfl := Option.some.inj shown
    rfl

theorem path_apart (absolute : isAbsolute file = true) (rooted : isAbsolute root = true)
    (apart : ∀ rest, ¬ Continues root file rest) : path root file = file := by
  rw [path, if_pos ⟨absolute, rooted⟩]
  by_cases through : components root <+: components file
  · obtain ⟨rest, through⟩ := through
    have up : rest.head? = some .parent := not_not.mp fun level => apart rest ⟨through.symm, level⟩
    obtain ⟨way, rfl⟩ := List.head?_eq_some_iff.mp up
    rw [← through, Path.difference?_append]
  · rcases Path.difference?_apart (Path.current_not_mem rooted) through with unrelated | ⟨way, up⟩
    · rw [unrelated]
    · rw [up]

theorem path_ne_iff (absolute : isAbsolute file = true) (rooted : isAbsolute root = true) :
    path root file ≠ file ↔ ∃ rest, Continues root file rest := by
  constructor
  · intro shortened
    by_contra apart
    exact shortened (path_apart absolute rooted (not_exists.mp apart))
  · rintro ⟨rest, continues⟩ same
    have relative := Path.isAbsolute_texts (Path.isStep_behind absolute rooted continues.1)
    rw [← path_continued absolute rooted continues, same, absolute] at relative
    exact absurd relative (by decide)

theorem components_join_path (absolute : isAbsolute file = true) (rooted : isAbsolute root = true) :
    components (Path.join root (path root file)) = components file := by
  by_cases continued : ∃ rest, Continues root file rest
  · obtain ⟨rest, continues⟩ := continued
    have nonempty : root ≠ "" := by
      rintro rfl
      exact absurd rooted (by decide)
    have proper := Path.isStep_behind absolute rooted continues.1
    have relative := Path.isAbsolute_texts proper
    rw [path_continued absolute rooted continues, Path.components_join nonempty relative,
      ← Path.course_relative relative, Path.course_texts proper, continues.1]
  · rw [path_apart absolute rooted (not_exists.mp continued), Path.join_absolute root absolute]

/-- A shown path still denotes its file: it leads back from the root, it is shortened exactly for what
continues the root, and no two files are shown alike. -/
theorem path_denotes (root file : String) :
    (isAbsolute file = false → path root file = file) ∧
    (isAbsolute file = true → isAbsolute root = true →
      components (Path.join root (path root file)) = components file ∧
      (path root file ≠ file ↔ ∃ rest, Continues root file rest) ∧
      (∀ rest, Continues root file rest → path root file = Text.join "/" (rest.map Component.text)) ∧
      ∀ other, isAbsolute other = true → path root other = path root file →
        components other = components file) := by
  refine ⟨path_relative root, fun absolute rooted => ⟨components_join_path absolute rooted,
    path_ne_iff absolute rooted, fun rest => path_continued absolute rooted, ?alike⟩⟩
  case alike =>
    intro other absolute' same
    rw [← components_join_path absolute rooted, ← same, components_join_path absolute' rooted]

/-- A file below the root, spelled with more slashes and dots than it needs, and one beside it whose name
begins like the root's. -/
theorem repository_path_denotes :
    path "/repo/" "/repo//src/./../a.js" = "src/../a.js" ∧
    components (Path.join "/repo/" "src/../a.js") = components "/repo//src/./../a.js" ∧
    path "/repo/" "/repository/a.js" = "/repository/a.js" ∧ path "/repo/" "src/a.js" = "src/a.js" ∧
    (path "/repo/" "/repository/a.js" = path "/repo/" "/repo//src/./../a.js" →
      components "/repository/a.js" = components "/repo//src/./../a.js") := by
  obtain ⟨-, absolute⟩ := path_denotes "/repo/" "/repo//src/./../a.js"
  obtain ⟨leads, -, shown, apart⟩ := absolute (by decide) (by decide)
  have short : path "/repo/" "/repo//src/./../a.js" = "src/../a.js" :=
    (shown [.name "src", .parent, .name "a.js"] ⟨by decide, by decide⟩).trans (by decide)
  rw [short] at leads
  exact ⟨short, leads, by decide, (path_denotes "/repo/" "src/a.js").1 (by decide),
    apart "/repository/a.js" (by decide)⟩

end Display
end PolicyLint
