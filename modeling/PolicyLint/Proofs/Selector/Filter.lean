import Mathlib.Data.List.Basic
import PolicyLint.Selector
/-!
The files that a selector keeps. Main statement: they are those that meet its three criteria, in their
order, and so filters can be repeated, swapped and split, and their lists act as the empty list, "any of"
and "none of" say.
-/
namespace PolicyLint

theorem Glob.toSlash_toSlash (s : String) : toSlash (toSlash s) = toSlash s := by
  have once : ∀ c : Char, (if (if c = '\\' then '/' else c) = '\\' then '/'
      else if c = '\\' then '/' else c) = if c = '\\' then '/' else c := by
    intro c
    split <;> simp_all
  simp [toSlash, Text.replaceChar, Function.comp_def, once]

theorem Glob.isMatch_toSlash (path pattern : String) :
    isMatch (toSlash path) pattern = isMatch path pattern := by
  rw [isMatch, isMatch, toSlash_toSlash]

theorem Language.owns_iff (name path : String) : owns name path = true ↔
    ∃ language ∈ find? name, ∃ extension ∈ extension? path, extension ∈ language.extensions := by
  unfold owns
  cases find? name with
  | none => simp
  | some language =>
    cases extension? path with
    | none => simp
    | some extension => simp

namespace Selector

/-- A file that meets every criterion. An empty list of languages or of included patterns is no criterion;
a backslash counts as a slash. -/
structure Keeps (s : Selector) (file : String) : Prop where
  language : s.languages = [] ∨ ∃ name ∈ s.languages, ∃ language ∈ Language.find? name,
    ∃ extension ∈ Language.extension? (Glob.toSlash file), extension ∈ language.extensions
  included : s.included = [] ∨ ∃ pattern ∈ s.included, Glob.isMatch file pattern = true
  excluded : ∀ pattern ∈ s.excluded, Glob.isMatch file pattern = false

theorem matchesFile_iff (s : Selector) (file : String) : s.matchesFile file = true ↔ s.Keeps file := by
  have parts : s.Keeps file ↔
      (s.languages = [] ∨ ∃ name ∈ s.languages, Language.owns name (Glob.toSlash file) = true) ∧
      (s.included = [] ∨ ∃ pattern ∈ s.included, Glob.isMatch file pattern = true) ∧
      ∀ pattern ∈ s.excluded, Glob.isMatch file pattern = false := by
    simp only [Language.owns_iff]
    exact ⟨fun ⟨l, i, e⟩ => ⟨l, i, e⟩, fun ⟨l, i, e⟩ => ⟨l, i, e⟩⟩
  rw [parts]
  simp [matchesFile, Glob.isMatch_toSlash, and_assoc]

instance (s : Selector) (file : String) : Decidable (s.Keeps file) :=
  decidable_of_iff _ (s.matchesFile_iff file)

theorem keep_some (s : Selector) (files : List String) :
    keep (some s) files = files.filter fun file => decide (s.Keeps file) := by
  refine List.filter_congr fun file _ => ?_
  rw [Bool.eq_iff_iff, decide_eq_true_iff, matchesFile_iff]

/-- Whether a selector, or none, keeps a file. -/
def passes (selector : Option Selector) (file : String) : Bool :=
  selector.all fun s => s.matchesFile file

theorem keep_eq_filter (selector : Option Selector) (files : List String) :
    keep selector files = files.filter (passes selector) := by
  cases selector with
  | none => exact (List.filter_eq_self.mpr fun _ _ => rfl).symm
  | some s => rfl

theorem keep_keep (selector : Option Selector) (files : List String) :
    keep selector (keep selector files) = keep selector files := by
  simp [keep_eq_filter, List.filter_filter]

theorem keep_comm (selector other : Option Selector) (files : List String) :
    keep selector (keep other files) = keep other (keep selector files) := by
  simp [keep_eq_filter, List.filter_filter, Bool.and_comm]

theorem keep_append (selector : Option Selector) (files more : List String) :
    keep selector (files ++ more) = keep selector files ++ keep selector more := by
  simp [keep_eq_filter]

/-- One more excluded pattern takes away what it matches and nothing else. -/
theorem keep_exclude (s : Selector) (files : List String) {pattern : String} {excluded : List String}
    (added : ∀ p, p ∈ excluded ↔ p = pattern ∨ p ∈ s.excluded) :
    keep (some { s with excluded }) files =
      (keep (some s) files).filter fun file => !Glob.isMatch file pattern := by
  rw [keep_some, keep_some, List.filter_filter]
  refine List.filter_congr fun file _ => ?_
  rw [Bool.eq_iff_iff, Bool.and_eq_true, Bool.not_eq_true', decide_eq_true_iff, decide_eq_true_iff]
  constructor
  · rintro ⟨language, included, clear⟩
    exact ⟨clear pattern ((added pattern).mpr (.inl rfl)), language, included,
      fun p member => clear p ((added p).mpr (.inr member))⟩
  · rintro ⟨apart, language, included, clear⟩
    refine ⟨language, included, fun p member => ?_⟩
    rcases (added p).mp member with rfl | member
    · exact apart
    · exact clear p member

theorem keep_sublist {s t : Selector} (weaker : ∀ file, s.Keeps file → t.Keeps file)
    (files : List String) : (keep (some s) files).Sublist (keep (some t) files) := by
  rw [keep_some, keep_some]
  exact List.monotone_filter_right files fun file kept => by simp_all

theorem Keeps.mono_languages {s : Selector} {file : String} (nonempty : s.languages ≠ [])
    {languages : List String} (more : s.languages ⊆ languages) (kept : s.Keeps file) :
    Keeps { s with languages } file := by
  refine ⟨.inr ?_, kept.included, kept.excluded⟩
  obtain ⟨name, member, owned⟩ := kept.language.resolve_left nonempty
  exact ⟨name, more member, owned⟩

theorem Keeps.mono_included {s : Selector} {file : String} (nonempty : s.included ≠ [])
    {included : List String} (more : s.included ⊆ included) (kept : s.Keeps file) :
    Keeps { s with included } file := by
  refine ⟨kept.language, .inr ?_, kept.excluded⟩
  obtain ⟨pattern, member, matched⟩ := kept.included.resolve_left nonempty
  exact ⟨pattern, more member, matched⟩

theorem passes_congr (selector : Option Selector) {file other : String}
    (same : Glob.toSlash file = Glob.toSlash other) : passes selector file = passes selector other := by
  simp only [passes, matchesFile, same]

theorem mem_keep_congr (selector : Option Selector) {files more : List String} {file other : String}
    (here : file ∈ files) (there : other ∈ more) (same : Glob.toSlash file = Glob.toSlash other) :
    file ∈ keep selector files ↔ other ∈ keep selector more := by
  simp only [keep_eq_filter, List.mem_filter, here, there, true_and, passes_congr selector same]

/-- What a filter keeps, and the laws that follow for every list of files. -/
theorem keep_laws (files : List String) :
    keep none files = files ∧
    (∀ s : Selector, keep (some s) files = files.filter fun file => decide (s.Keeps file)) ∧
    (∀ selector, keep selector (keep selector files) = keep selector files) ∧
    (∀ selector other, keep selector (keep other files) = keep other (keep selector files)) ∧
    (∀ selector more, keep selector (files ++ more) = keep selector files ++ keep selector more) ∧
    (∀ (s : Selector) (pattern : String) (excluded : List String),
      (∀ p, p ∈ excluded ↔ p = pattern ∨ p ∈ s.excluded) →
        keep (some { s with excluded }) files =
          (keep (some s) files).filter fun file => !Glob.isMatch file pattern) ∧
    (∀ (s : Selector) (languages : List String), s.languages ≠ [] → s.languages ⊆ languages →
      (keep (some s) files).Sublist (keep (some { s with languages }) files)) ∧
    (∀ (s : Selector) (included : List String), s.included ≠ [] → s.included ⊆ included →
      (keep (some s) files).Sublist (keep (some { s with included }) files)) ∧
    (∀ selector more, ∀ file ∈ files, ∀ other ∈ more, Glob.toSlash file = Glob.toSlash other →
      (file ∈ keep selector files ↔ other ∈ keep selector more)) := by
  refine ⟨rfl, fun s => keep_some s files, fun selector => keep_keep selector files,
    fun selector other => keep_comm selector other files,
    fun selector more => keep_append selector files more,
    fun s pattern excluded added => keep_exclude s files added, ?languages, ?included, ?slashes⟩
  case languages =>
    intro s languages named more
    exact keep_sublist (fun _ kept => kept.mono_languages named more) files
  case included =>
    intro s included given more
    exact keep_sublist (fun _ kept => kept.mono_included given more) files
  case slashes =>
    intro selector more file here other there same
    exact mem_keep_congr selector here there same

/-- The conditions of the laws, met by a language, an included pattern and an excluded one more. -/
theorem script_keep_laws :
    let scripts : Selector := ⟨["js"], ["src/*"], [], [], [], []⟩
    let files := ["src/a.js", "src\\b.ts", "c.js"]
    keep (some { scripts with excluded := ["src/a*"] }) files =
      (keep (some scripts) files).filter (fun file => !Glob.isMatch file "src/a*") ∧
    (keep (some scripts) files).Sublist (keep (some { scripts with languages := ["ts", "js"] }) files) ∧
    (keep (some scripts) files).Sublist (keep (some { scripts with included := ["src/*", "*"] }) files) ∧
    ("src\\b.ts" ∈ keep (some scripts) files ↔ "src/b.ts" ∈ keep (some scripts) ["src/b.ts"]) := by
  intro scripts files
  obtain ⟨-, -, -, -, -, exclude, languages, included, slashes⟩ := keep_laws files
  refine ⟨exclude scripts "src/a*" ["src/a*"] ?_, languages scripts ["ts", "js"] ?_ ?_,
    included scripts ["src/*", "*"] ?_ ?_, slashes (some scripts) ["src/b.ts"] _ ?_ _ ?_ ?_⟩
  all_goals simp [scripts, files, Glob.toSlash, Text.replaceChar]

end Selector
end PolicyLint
