import Mathlib.Data.List.Induction
import PolicyLint.Proofs.Text.Folding
import PolicyLint.Proofs.Text.Order
import PolicyLint.Tool.Toolbox
/-!
Adapters that are registered one after the other. A registry holds the first adapter of each name, in
the order in which they came; it routes a language and a category to an adapter exactly when it lists
the language for the category, and what it has routed once it routes the same way ever after.
-/
namespace PolicyLint

/-- An adapter lists a language, in whatever case, and a category. -/
def Adapter.Lists (adapter : Adapter W) (language category : String) : Prop :=
  (∃ entry ∈ adapter.capabilities.languages, Text.asciiLower entry = Text.asciiLower language) ∧
    category ∈ adapter.capabilities.categories

theorem Adapter.lists_iff {adapter : Adapter W} {language category : String} :
    (adapter.capabilities.speaks language && adapter.capabilities.handles category) = true ↔
      adapter.Lists language category := by
  simp [Lists, Capabilities.speaks, Capabilities.handles, Text.sameIgnoringCase_iff]

namespace AdapterRegistry

/-- A registration; an adapter that is refused leaves everything as it was. -/
def enlist (registry : AdapterRegistry W) (adapter : Adapter W) : AdapterRegistry W :=
  match registry.register adapter with
  | .ok registry => registry
  | .error _ => registry

def enlistAll (registry : AdapterRegistry W) (offered : List (Adapter W)) : AdapterRegistry W :=
  offered.foldl enlist registry

variable {registry : AdapterRegistry W} {adapter : Adapter W}

/-! ### One registration -/

theorem register_taken (taken : adapter.name ∈ registry.names) :
    registry.register adapter = .error (.adapterAlreadyRegistered adapter.name) := by
  simp [register, taken]

theorem enlist_taken (taken : adapter.name ∈ registry.names) : registry.enlist adapter = registry := by
  rw [enlist, register_taken taken]

theorem enlist_free (free : adapter.name ∉ registry.names) :
    registry.enlist adapter = ⟨registry.adapters ++ [adapter]⟩ := by
  simp [enlist, register, free]

theorem enlist_grows (registry : AdapterRegistry W) (adapter : Adapter W) :
    registry.adapters <+: (registry.enlist adapter).adapters := by
  by_cases taken : adapter.name ∈ registry.names
  · exact ⟨[], by rw [enlist_taken taken, List.append_nil]⟩
  · rw [enlist_free taken]
    exact List.prefix_append _ _

theorem enlistAll_grows (registry : AdapterRegistry W) (offered : List (Adapter W)) :
    registry.adapters <+: (registry.enlistAll offered).adapters := by
  induction offered generalizing registry with
  | nil => exact List.prefix_refl _
  | cons adapter rest ih => exact (registry.enlist_grows adapter).trans (ih _)

theorem enlistAll_concat (registry : AdapterRegistry W) (offered : List (Adapter W))
    (adapter : Adapter W) :
    registry.enlistAll (offered ++ [adapter]) = (registry.enlistAll offered).enlist adapter := by
  simp [enlistAll]

/-! ### Looking adapters up -/

theorem get_eq_ok_iff {name : String} :
    registry.get name = .ok adapter ↔
      registry.adapters.find? (fun a => a.name == name) = some adapter := by
  unfold get
  split
  all_goals
    rename_i found
    rw [found]
    simp

theorem find_eq_ok_iff {language category : String} :
    registry.find language category = .ok adapter ↔
      registry.adapters.find? (fun a => a.capabilities.speaks language &&
        a.capabilities.handles category) = some adapter := by
  unfold find
  split
  all_goals
    rename_i found
    rw [found]
    simp

theorem find_first {language category : String} :
    registry.find language category = .ok adapter ↔
      adapter.Lists language category ∧ ∃ before behind, registry.adapters = before ++ adapter :: behind ∧
        ∀ earlier ∈ before, ¬ earlier.Lists language category := by
  simp only [find_eq_ok_iff, List.find?_eq_some_iff_append, Adapter.lists_iff, Bool.not_eq_true',
    ← Bool.not_eq_true]

theorem mem_languages_iff {category entry : String} :
    entry ∈ registry.languages category ↔ ∃ adapter ∈ registry.adapters,
      category ∈ adapter.capabilities.categories ∧ entry ∈ adapter.capabilities.languages := by
  simp [languages, Text.mem_sortedDistinct, Capabilities.handles, and_assoc]

theorem find_isOk_iff {language category : String} :
    (∃ adapter, registry.find language category = .ok adapter) ↔
      ∃ entry ∈ registry.languages category, Text.asciiLower entry = Text.asciiLower language := by
  have found : (∃ adapter, registry.find language category = .ok adapter) ↔
      ∃ adapter ∈ registry.adapters, adapter.Lists language category := by
    simp only [find_eq_ok_iff, ← Option.isSome_iff_exists, List.find?_isSome, Adapter.lists_iff]
  rw [found]
  constructor
  · rintro ⟨adapter, member, ⟨entry, listed, same⟩, category⟩
    exact ⟨entry, mem_languages_iff.mpr ⟨adapter, member, category, listed⟩, same⟩
  · rintro ⟨entry, listed, same⟩
    obtain ⟨adapter, member, category, listed⟩ := mem_languages_iff.mp listed
    exact ⟨adapter, member, ⟨entry, listed, same⟩, category⟩

/-! ### Many registrations -/

/-- A registry to which adapters were offered in their order: it has the first one of each name. -/
structure Enlisted (offered : List (Adapter W)) (registry : AdapterRegistry W) : Prop where
  names_once : registry.names.Nodup
  in_order : registry.adapters.Sublist offered
  first : ∀ name, registry.adapters.find? (fun a => a.name == name) =
    offered.find? fun a => a.name == name

theorem Enlisted.enlist {offered : List (Adapter W)} (enlisted : Enlisted offered registry)
    (adapter : Adapter W) : Enlisted (offered ++ [adapter]) (registry.enlist adapter) := by
  by_cases taken : adapter.name ∈ registry.names
  · rw [enlist_taken taken]
    refine ⟨enlisted.names_once, enlisted.in_order.trans (List.sublist_append_left _ _), fun name => ?_⟩
    rw [List.find?_append, ← enlisted.first]
    cases found : registry.adapters.find? (fun a => a.name == name) with
    | some first => rfl
    | none =>
      have other : (adapter.name == name) = false := by
        obtain ⟨first, member, same⟩ := List.mem_map.mp taken
        rw [← same]
        simpa using List.find?_eq_none.mp found first member
      simp [other]
  · rw [enlist_free taken]
    refine ⟨?_, enlisted.in_order.append (List.Sublist.refl _), fun name => ?_⟩
    · rw [names, List.map_append, List.nodup_append]
      refine ⟨enlisted.names_once, by simp, ?_⟩
      rintro name member name' same rfl
      obtain rfl := List.mem_singleton.mp same
      exact taken member
    · rw [List.find?_append, List.find?_append, enlisted.first]

theorem enlistAll_enlisted (offered : List (Adapter W)) : Enlisted offered (empty.enlistAll offered) := by
  induction offered using List.reverseRecOn with
  | nil => exact ⟨List.nodup_nil, List.Sublist.refl _, fun _ => rfl⟩
  | append_singleton offered adapter ih =>
    rw [enlistAll_concat]
    exact ih.enlist adapter

/-- The built-in adapters are as they would be one after the other, so registering more goes on there. -/
theorem builtin_enlisted (box : Toolbox) : box.adapters = empty.enlistAll box.adapters.adapters := by
  rfl

theorem get_iff (once : registry.names.Nodup) {name : String} :
    registry.get name = .ok adapter ↔ adapter ∈ registry.adapters ∧ adapter.name = name := by
  rw [get_eq_ok_iff]
  constructor
  · intro found
    exact ⟨List.mem_of_find?_eq_some found, by simpa using List.find?_some found⟩
  · rintro ⟨member, rfl⟩
    obtain ⟨before, behind, split⟩ := List.append_of_mem member
    refine List.find?_eq_some_iff_append.mpr ⟨by simp, before, behind, split, fun earlier member => ?_⟩
    -- An earlier adapter of this name would make the name appear twice.
    have apart : earlier.name ≠ adapter.name := by
      rw [names, split, List.map_append, List.nodup_append] at once
      exact once.2.2 _ (List.mem_map_of_mem member) _ (by simp)
    simpa using apart

theorem find_kept (more : List (Adapter W)) {language category : String}
    (found : registry.find language category = .ok adapter) :
    (registry.enlistAll more).find language category = .ok adapter :=
  find_eq_ok_iff.mpr ((registry.enlistAll_grows more).find?_eq_some (find_eq_ok_iff.mp found))

theorem get_kept (more : List (Adapter W)) {name : String} (found : registry.get name = .ok adapter) :
    (registry.enlistAll more).get name = .ok adapter :=
  get_eq_ok_iff.mpr ((registry.enlistAll_grows more).find?_eq_some (get_eq_ok_iff.mp found))

theorem languages_kept (more : List (Adapter W)) (category : String) :
    registry.languages category ⊆ (registry.enlistAll more).languages category := by
  intro entry listed
  obtain ⟨adapter, member, served⟩ := mem_languages_iff.mp listed
  exact mem_languages_iff.mpr ⟨adapter, (registry.enlistAll_grows more).subset member, served⟩

/-- What a registry to which adapters were offered gives its callers. -/
structure Routes (offered : List (Adapter W)) (registry : AdapterRegistry W) : Prop
    extends Enlisted offered registry where
  refused : ∀ adapter, adapter.name ∈ registry.names →
    registry.register adapter = .error (.adapterAlreadyRegistered adapter.name) ∧
      registry.enlist adapter = registry
  accepted : ∀ adapter, adapter.name ∉ registry.names →
    registry.register adapter = .ok (registry.enlist adapter) ∧
      (registry.enlist adapter).adapters = registry.adapters ++ [adapter]
  finds : ∀ language category, (∃ adapter, registry.find language category = .ok adapter) ↔
    ∃ entry ∈ registry.languages category, Text.asciiLower entry = Text.asciiLower language
  finds_first : ∀ language category adapter, registry.find language category = .ok adapter ↔
    adapter.Lists language category ∧ ∃ before behind, registry.adapters = before ++ adapter :: behind ∧
      ∀ earlier ∈ before, ¬ earlier.Lists language category
  gets : ∀ name adapter, registry.get name = .ok adapter ↔
    adapter ∈ registry.adapters ∧ adapter.name = name
  find_kept : ∀ more language category adapter, registry.find language category = .ok adapter →
    (registry.enlistAll more).find language category = .ok adapter
  get_kept : ∀ more name adapter, registry.get name = .ok adapter →
    (registry.enlistAll more).get name = .ok adapter
  languages_kept : ∀ more category,
    registry.languages category ⊆ (registry.enlistAll more).languages category
  languages_ordered : ∀ category, (registry.languages category).Pairwise (· < ·)

theorem enlistAll_routes (offered : List (Adapter W)) : Routes offered (empty.enlistAll offered) := by
  have enlisted := enlistAll_enlisted offered
  exact
    { enlisted with
      refused := fun _ taken => ⟨register_taken taken, enlist_taken taken⟩
      accepted := fun adapter free => by
        rw [enlist_free free]
        exact ⟨by simp [register, free], rfl⟩
      finds := fun _ _ => find_isOk_iff
      finds_first := fun _ _ _ => find_first
      gets := fun _ _ => get_iff enlisted.names_once
      find_kept := fun more _ _ _ => find_kept more
      get_kept := fun more _ _ => get_kept more
      languages_kept := languages_kept
      languages_ordered := fun _ => Text.sortedDistinct_strict _ }

end AdapterRegistry
end PolicyLint
