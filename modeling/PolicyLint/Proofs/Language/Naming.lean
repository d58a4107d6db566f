import PolicyLint.Engine.Evaluation
import PolicyLint.Proofs.Language.Detection
import PolicyLint.Proofs.Text.Folding
/-!
The names of languages. Main statement: a path belongs to the names of one language, the one it is taken
for; and where a rule names a language, any other name of it will do, in any case and with blanks around it.
-/
namespace PolicyLint

/-! ### Names of one language -/

namespace Language

/-- Names that one language goes by, or that differ in their case and the blanks around them alone. -/
def SameName (name other : String) : Prop :=
  (∃ language, canonical? name = some language ∧ canonical? other = some language) ∨
    normalized name = normalized other

theorem canonical?_congr {name other : String} (same : normalized name = normalized other) :
    canonical? name = canonical? other := by
  rw [canonical?, canonical?, find?, find?, same]

/-- A language is found by its name and by its other names. -/
theorem canonical?_listed : ∀ l ∈ all, ∀ name ∈ l.name :: l.aliases, canonical? name = some l.name := by
  decide +kernel

theorem SameName.canonical? {name other : String} (same : SameName name other) :
    canonical? name = canonical? other := by
  rcases same with ⟨language, first, second⟩ | same
  · rw [first, second]
  · exact canonical?_congr same

theorem SameName.owns {name other : String} (same : SameName name other) (path : String) :
    owns name path = owns other path := by
  rw [Bool.eq_iff_iff, owns_iff_ofPath?, owns_iff_ofPath?, same.canonical?]

/-- What governs a rule whose first language is named so. -/
theorem SameName.governing {name other : String} (same : SameName name other) :
    (Language.canonical? name).getD (normalized name) =
      (Language.canonical? other).getD (normalized other) := by
  rcases same with ⟨language, first, second⟩ | same
  · rw [first, second, Option.getD_some, Option.getD_some]
  · rw [canonical?_congr same, same]

theorem sameName_respelled {name other before behind : String} (blank : Text.IsBlank before)
    (blank' : Text.IsBlank behind) (same : Text.sameIgnoringCase name other = true) :
    SameName name (before ++ other ++ behind) :=
  .inr (Text.folded_respelled blank blank' same).symm

/-- No path belongs to two languages. -/
theorem owns_unique {name other path : String} (first : owns name path = true)
    (second : owns other path = true) :
    ∃ language, canonical? name = some language ∧ canonical? other = some language := by
  obtain ⟨language, named, taken⟩ := (owns_iff_ofPath? name path).mp first
  obtain ⟨language', named', taken'⟩ := (owns_iff_ofPath? other path).mp second
  obtain rfl := Option.some.inj (taken.symm.trans taken')
  exact ⟨language, named, named'⟩

end Language

/-! ### Rules that name a language otherwise -/

namespace Selector

variable {s : Selector} {before behind : List String} {name other : String}

theorem matchesFile_renamed (languages : s.languages = before ++ name :: behind)
    (same : Language.SameName name other) (file : String) :
    { s with languages := before ++ other :: behind }.matchesFile file = s.matchesFile file := by
  have named : ∀ name, (before ++ name :: behind).isEmpty = false := by simp
  simp only [matchesFile, languages, named, List.any_append, List.any_cons, same.owns]

theorem keep_renamed (languages : s.languages = before ++ name :: behind)
    (same : Language.SameName name other) (files : List String) :
    keep (some { s with languages := before ++ other :: behind }) files = keep (some s) files :=
  List.filter_congr fun file _ => matchesFile_renamed languages same file

theorem language_renamed (languages : s.languages = before ++ name :: behind)
    (same : Language.SameName name other) (files : List String) :
    language (some { s with languages := before ++ other :: behind }) files = language (some s) files := by
  cases before with
  | nil => simp only [language, languages, Option.bind_some, List.nil_append, List.head?_cons,
      same.governing]
  | cons first rest => simp only [language, languages, Option.bind_some, List.cons_append, List.head?_cons]

end Selector

/-- Rules that keep the same files, are evaluated for the same language, and get the same adapter. -/
structure Rule.SelectsAs (rule other : Rule) : Prop where
  kept : ∀ files, Selector.keep rule.selector files = Selector.keep other.selector files
  governing : ∀ files, Selector.language rule.selector files = Selector.language other.selector files
  found : ∀ {W : Type} (evaluator : Evaluator W) (files : List String) (pinned : Option String),
    evaluator.adapterFor rule (Selector.language rule.selector files) pinned =
      evaluator.adapterFor other (Selector.language other.selector files) pinned

theorem Rule.selectsAs_renamed {rule : Rule} {s : Selector} {before behind : List String}
    {name other : String} (selector : rule.selector = some s)
    (languages : s.languages = before ++ name :: behind) (same : Language.SameName name other) :
    Rule.SelectsAs { rule with selector := some { s with languages := before ++ other :: behind } } rule where
  kept files := by rw [selector, Selector.keep_renamed languages same]
  governing files := by rw [selector, Selector.language_renamed languages same]
  found evaluator files pinned := by
    rw [selector, Selector.language_renamed languages same]
    rfl

/-- A path belongs to a name exactly when it is taken for the language of that name; so all names it belongs
to are those of one language. A language is named by its own name and by its other ones, in any case and with
any blanks around them. And where a rule names a language, every name of it makes the rule keep the same
files, be evaluated for the same language and get the same adapter, whatever adapters there are. -/
theorem Language.names_interchange :
    (∀ name path, owns name path = true ↔
      ∃ language, canonical? name = some language ∧ ofPath? path = some language) ∧
    (∀ path name other, owns name path = true → owns other path = true →
      ∃ language, canonical? name = some language ∧ canonical? other = some language) ∧
    (∀ l ∈ all, ∀ name ∈ l.name :: l.aliases, canonical? name = some l.name) ∧
    (∀ name other before behind, Text.IsBlank before → Text.IsBlank behind →
      Text.sameIgnoringCase name other = true → SameName name (before ++ other ++ behind)) ∧
    ∀ (rule : Rule) (s : Selector) (before : List String) (name : String) (behind : List String)
      (other : String), rule.selector = some s → s.languages = before ++ name :: behind →
      SameName name other →
      Rule.SelectsAs { rule with selector := some { s with languages := before ++ other :: behind } } rule :=
  ⟨owns_iff_ofPath?, fun _ _ _ => owns_unique, canonical?_listed, fun _ _ _ _ => sameName_respelled,
    fun _ _ _ _ _ _ => Rule.selectsAs_renamed⟩

/-- The second language of a rule by another name, and the first one in capitals between blanks. -/
theorem Language.names_interchange_scripts :
    let selector : Selector := ⟨["golang", "js"], [], ["vendor/**"], [], [], []⟩
    let rule : Rule := ⟨"A", true, "", .error, none, some selector, .empty, none, none⟩
    owns "JS" "src/a.mjs" = true ∧ owns "javascript" "src/a.mjs" = true ∧
    (∃ language, canonical? "JS" = some language ∧ canonical? "javascript" = some language) ∧
    Rule.SelectsAs { rule with selector := some { selector with languages := ["golang", "javascript"] } }
      rule ∧
    Rule.SelectsAs { rule with selector := some { selector with languages := [" GoLang\t", "js"] } } rule := by
  intro selector rule
  obtain ⟨-, unique, listed, respelled, renamed⟩ := names_interchange
  have first : owns "JS" "src/a.mjs" = true := by decide +kernel
  have second : owns "javascript" "src/a.mjs" = true := by decide +kernel
  have listed := listed ⟨"javascript", ["js"], ["js", "mjs", "cjs"]⟩ List.mem_cons_self
  have script : SameName "js" "javascript" :=
    .inl ⟨"javascript", listed "js" (by simp), listed "javascript" (by simp)⟩
  have go : SameName "golang" (" " ++ "GoLang" ++ "\t") :=
    respelled "golang" "GoLang" " " "\t" (by decide) (by decide) (by decide +kernel)
  exact ⟨first, second, unique _ _ _ first second, renamed rule selector ["golang"] "js" [] _ rfl rfl script,
    renamed rule selector [] "golang" ["js"] _ rfl rfl go⟩

end PolicyLint
