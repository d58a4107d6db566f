import PolicyLint.Proofs.Text.Folding
import PolicyLint.Scope
/-!
Which rules run in a scope. Main statement: those whose branches, roles and tags leave room for it, as a
predicate on the entries of the lists; so the spelling, the order and the repetition of entries count for
nothing, and entries that are added to a list that is not empty only let more rules run.
-/
namespace PolicyLint

open Text

namespace Scope

/-- A list of names leaves room for the current one, if that is known: it is empty, or an entry of it stands
for everyone or for the current name. -/
def Admits (allowed : List String) (current : Option String) : Prop :=
  current = none ∨ allowed = [] ∨ ∃ entry ∈ allowed,
    trim entry = "*" ∨ folded entry = "any" ∨ folded entry = "all" ∨
      ∃ name ∈ current, asciiLower name = folded entry

/-- What a rule asks of the scope it runs in. -/
structure Runs (scope : Scope) (selector : Selector) : Prop where
  branch : Admits selector.branches scope.branch
  role : Admits selector.roles scope.role
  tags : scope.tags = [] ∨ ∃ wanted ∈ scope.tags, ∃ tag ∈ selector.tags, asciiLower tag = asciiLower wanted

theorem isWildcard_trim_iff (entry : String) : isWildcard (trim entry) = true ↔
    trim entry = "*" ∨ folded entry = "any" ∨ folded entry = "all" := by
  have any : asciiLower "any" = "any" := by decide +kernel
  have all : asciiLower "all" = "all" := by decide +kernel
  simp only [isWildcard, Bool.or_eq_true, beq_iff_eq, sameIgnoringCase_iff, any, all, or_assoc, folded]

theorem admits_iff (allowed : List String) (current : Option String) :
    admits allowed current = true ↔ Admits allowed current := by
  cases current with
  | none => simp [admits, Admits]
  | some name =>
    have named : ∀ entry, sameIgnoringCase (trim entry) name = true ↔ asciiLower name = folded entry :=
      fun entry => sameIgnoringCase_iff.trans eq_comm
    simp only [admits, Admits, Bool.or_eq_true, List.isEmpty_iff, List.any_map, List.any_eq_true,
      Function.comp_apply, isWildcard_trim_iff, named, reduceCtorEq, false_or, or_assoc,
      Option.mem_some_iff, exists_eq_left']

theorem sharesTag_iff (wanted tags : List String) : sharesTag wanted tags = true ↔
    ∃ want ∈ wanted, ∃ tag ∈ tags, asciiLower tag = asciiLower want := by
  simp only [sharesTag, List.any_eq_true, sameIgnoringCase_iff]
  grind

theorem runs_iff (scope : Scope) (selector : Selector) : scope.Runs selector ↔
    Admits selector.branches scope.branch ∧ Admits selector.roles scope.role ∧
      (scope.tags = [] ∨ ∃ wanted ∈ scope.tags, ∃ tag ∈ selector.tags, asciiLower tag = asciiLower wanted) :=
  ⟨fun ⟨branch, role, tags⟩ => ⟨branch, role, tags⟩, fun ⟨branch, role, tags⟩ => ⟨branch, role, tags⟩⟩

theorem excludesSelector?_eq_none_iff (scope : Scope) (selector : Selector) :
    scope.excludesSelector? selector = none ↔ scope.Runs selector := by
  rw [runs_iff, ← admits_iff, ← admits_iff, ← sharesTag_iff]
  unfold excludesSelector?
  cases admits selector.branches scope.branch with
  | false => simp
  | true =>
    cases admits selector.roles scope.role with
    | false => simp
    | true => cases sharesTag scope.tags selector.tags <;> simp

end Scope

/-- The selector that says in which scopes a rule runs. -/
def Rule.gate (rule : Rule) : Selector :=
  rule.selector.getD .empty

namespace Scope

/-- A rule without a selector is as one with an empty selector. -/
theorem excludes?_eq_none_iff (scope : Scope) (rule : Rule) :
    scope.excludes? rule = none ↔ scope.Runs rule.gate := by
  rw [← excludesSelector?_eq_none_iff, excludes?, Rule.gate]
  cases rule.selector with
  | some selector => rfl
  | none =>
    have open' : ∀ current, admits [] current = true := fun current => by cases current <;> rfl
    have untagged : sharesTag scope.tags [] = false := rfl
    simp [excludesSelector?, Selector.empty, open', untagged]

/-! ### Entries that count alike -/

/-- Lists with the same entries, as far as `fold` tells these apart: neither their order nor how often each
comes is looked at. -/
def SameEntries (fold : String → String) (entries others : List String) : Prop :=
  ∀ text, text ∈ entries.map fold ↔ text ∈ others.map fold

instance (fold : String → String) (entries others : List String) :
    Decidable (SameEntries fold entries others) :=
  decidable_of_iff (entries.map fold ⊆ others.map fold ∧ others.map fold ⊆ entries.map fold)
    ⟨fun ⟨into, back⟩ _ => ⟨@into _, @back _⟩, fun same => ⟨fun _ => (same _).mp, fun _ => (same _).mpr⟩⟩

theorem SameEntries.nil_iff {fold : String → String} {entries others : List String}
    (same : SameEntries fold entries others) : entries = [] ↔ others = [] := by
  rw [← List.map_eq_nil_iff (f := fold), ← List.map_eq_nil_iff (f := fold) (l := others),
    List.eq_nil_iff_forall_not_mem, List.eq_nil_iff_forall_not_mem]
  exact forall_congr' fun text => not_congr (same text)

theorem admits_folded (allowed : List String) (current : Option String) :
    Admits allowed current ↔ current.map asciiLower = none ∨ allowed = [] ∨
      ∃ text ∈ allowed.map folded, text = "*" ∨ text = "any" ∨ text = "all" ∨
        current.map asciiLower = some text := by
  simp [Admits, folded, asciiLower_eq_star_iff]

theorem Admits.congr {allowed others : List String} {current current' : Option String}
    (same : SameEntries folded allowed others) (alike : current.map asciiLower = current'.map asciiLower) :
    Admits allowed current ↔ Admits others current' := by
  simp only [admits_folded, alike, same.nil_iff, same _]

theorem sharesTag_folded (wanted tags : List String) :
    (∃ want ∈ wanted, ∃ tag ∈ tags, asciiLower tag = asciiLower want) ↔
      ∃ text ∈ wanted.map asciiLower, text ∈ tags.map asciiLower := by
  simp

end Scope

/-- Selectors whose entries for branches, roles and tags count alike: the case of a letter tells nothing, and
blanks around a branch or a role do not either. -/
structure Selector.GatesAs (s t : Selector) : Prop where
  branches : Scope.SameEntries folded s.branches t.branches
  roles : Scope.SameEntries folded s.roles t.roles
  tags : Scope.SameEntries asciiLower s.tags t.tags

namespace Scope

/-- Scopes that differ in the case of letters, and in the order and the repetition of their tags. -/
structure SameAs (scope other : Scope) : Prop where
  branch : scope.branch.map asciiLower = other.branch.map asciiLower
  role : scope.role.map asciiLower = other.role.map asciiLower
  tags : SameEntries asciiLower scope.tags other.tags

theorem runs_congr {scope other : Scope} {s t : Selector} (same : scope.SameAs other)
    (alike : s.GatesAs t) : scope.Runs s ↔ other.Runs t := by
  rw [runs_iff, runs_iff, Admits.congr alike.branches same.branch, Admits.congr alike.roles same.role,
    same.tags.nil_iff, sharesTag_folded, sharesTag_folded]
  simp only [same.tags _, alike.tags _]

/-! ### Entries that are added -/

theorem Admits.mono {allowed more : List String} {current : Option String}
    (empty : allowed = [] → more = []) (added : allowed ⊆ more) (admits : Admits allowed current) :
    Admits more current := by
  rcases admits with unknown | unlimited | ⟨entry, member, fits⟩
  · exact .inl unknown
  · exact .inr (.inl (empty unlimited))
  · exact .inr (.inr ⟨entry, added member, fits⟩)

end Scope

/-- A selector with entries added: where a list of branches or of roles is empty, it stays so. -/
structure Selector.GrowsTo (s t : Selector) : Prop where
  branches : s.branches ⊆ t.branches
  no_branches : s.branches = [] → t.branches = []
  roles : s.roles ⊆ t.roles
  no_roles : s.roles = [] → t.roles = []
  tags : s.tags ⊆ t.tags

namespace Scope

theorem Runs.grown {scope : Scope} {s t : Selector} (runs : scope.Runs s) (grown : s.GrowsTo t) :
    scope.Runs t where
  branch := runs.branch.mono grown.no_branches grown.branches
  role := runs.role.mono grown.no_roles grown.roles
  tags := runs.tags.imp_right fun ⟨wanted, asked, tag, given, same⟩ =>
    ⟨wanted, asked, tag, grown.tags given, same⟩

theorem Runs.tagged {scope : Scope} {s : Selector} (runs : scope.Runs s) (nonempty : scope.tags ≠ [])
    {tags : List String} (more : scope.tags ⊆ tags) : { scope with tags }.Runs s where
  branch := runs.branch
  role := runs.role
  tags := by
    obtain ⟨wanted, asked, shared⟩ := runs.tags.resolve_left nonempty
    exact .inr ⟨wanted, more asked, shared⟩

/-- A rule runs in a scope exactly when its branches, roles and tags leave room for it; a rule without a
selector is decided like one with an empty selector. So the decision depends neither on the case of letters
nor on the order and the repetition of entries, nor on blanks around branches and roles. More entries, in
lists of branches and roles that have some and among the rule's tags, take no rule out of the run, and more
tags of the run do not either, once it has some. -/
theorem gating_exact (scope : Scope) (rule : Rule) :
    (scope.excludes? rule = none ↔ scope.Runs rule.gate) ∧
    (rule.selector = none → (scope.excludes? rule = none ↔
      scope.excludes? { rule with selector := some .empty } = none)) ∧
    (∀ (other : Scope) (rule' : Rule), scope.SameAs other → rule.gate.GatesAs rule'.gate →
      (scope.excludes? rule = none ↔ other.excludes? rule' = none)) ∧
    (∀ rule' : Rule, rule.gate.GrowsTo rule'.gate →
      scope.excludes? rule = none → scope.excludes? rule' = none) ∧
    ∀ tags, scope.tags ≠ [] → scope.tags ⊆ tags →
      scope.excludes? rule = none → { scope with tags }.excludes? rule = none := by
  refine ⟨scope.excludes?_eq_none_iff rule, fun unset => ?_, fun other rule' same alike => ?_,
    fun rule' grown => ?_, fun tags nonempty more => ?_⟩
  · rw [excludes?_eq_none_iff, excludes?_eq_none_iff, Rule.gate, Rule.gate, unset, Option.getD_none,
      Option.getD_some]
  · rw [excludes?_eq_none_iff, excludes?_eq_none_iff]
    exact runs_congr same alike
  · rw [excludes?_eq_none_iff, excludes?_eq_none_iff]
    exact fun runs => runs.grown grown
  · rw [excludes?_eq_none_iff, excludes?_eq_none_iff]
    exact fun runs => runs.tagged nonempty more

/-- A nightly run on a release branch, and rules that name it in several ways. -/
theorem nightly_gating_exact :
    let scope : Scope := ⟨some "RELEASE/2", none, ["nightly"]⟩
    let selector : Selector := ⟨[], [], [], ["main", " release/2"], ["dev"], ["Nightly", "slow"]⟩
    let respelled : Selector := ⟨["go"], [], [], ["Release/2\t", "MAIN", "main"], ["Dev "], ["SLOW", "nightly"]⟩
    let grown : Selector := { selector with branches := ["main", "next", " release/2"] }
    let rule : Rule := ⟨"A", true, "", .error, none, some selector, .empty, none, none⟩
    let bare : Rule := { rule with selector := none }
    scope.Runs selector ∧ scope.excludes? rule = none ∧
    scope.excludes? { rule with selector := some respelled } = none ∧
    scope.excludes? { rule with selector := some grown } = none ∧
    { scope with tags := ["weekly", "nightly"] }.excludes? rule = none ∧
    scope.excludes? bare ≠ none ∧ scope.excludes? { bare with selector := some .empty } ≠ none := by
  intro scope selector respelled grown rule bare
  obtain ⟨runs, -, alike, growing, tagged⟩ := gating_exact scope rule
  have kept : scope.excludes? rule = none := by decide +kernel
  have same : scope.SameAs scope := ⟨rfl, rfl, fun _ => Iff.rfl⟩
  have gates : rule.gate.GatesAs respelled :=
    ⟨by decide +kernel, by decide +kernel, by decide +kernel⟩
  have grows : rule.gate.GrowsTo grown :=
    ⟨by decide +kernel, nofun, by decide +kernel, nofun, by decide +kernel⟩
  have untagged : scope.excludes? bare ≠ none := by decide +kernel
  have empty := (gating_exact scope bare).2.1 rfl
  exact ⟨runs.mp kept, kept, (alike scope { rule with selector := some respelled } same gates).mp kept,
    growing { rule with selector := some grown } grows kept,
    tagged ["weekly", "nightly"] (by decide) (by decide) kept, untagged, fun included => untagged (empty.mpr included)⟩

end Scope
end PolicyLint
