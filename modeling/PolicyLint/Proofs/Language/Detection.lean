import Mathlib.Data.List.Basic
import PolicyLint.Proofs.Path.FileName
import PolicyLint.Proofs.Selector.Filter
/-!
Which language a path is taken for, by a filter and by detection. A filter reads a backslash as a slash
before it looks at the file name; detection takes the path as it is. Main statement: the two agree on
exactly the paths in whose file name something stands between the last backslash and the last dot, and
on paths that neither of them takes for a known language.
-/
namespace PolicyLint

namespace Language

open PolicyLint.Path

/-! ### Languages of file names -/

def ofExtension? (extension : String) : Option String :=
  (all.find? fun l => l.extensions.contains extension).map Language.name

theorem ofPath?_eq (path : String) : ofPath? path = (extension? path).bind ofExtension? := rfl

theorem all_extensions : ∀ l ∈ all, ∀ extension ∈ l.extensions,
    ofExtension? extension = some l.name ∧ extension ≠ "" ∧ '\\' ∉ extension.toList := by
  decide +kernel

theorem all_names : ∀ l ∈ all, ∀ m ∈ all, l.name = m.name → l.extensions = m.extensions := by
  decide +kernel

theorem mem_of_find? {name : String} {l : Language} (found : find? name = some l) : l ∈ all := by
  simp only [find?] at found
  exact List.mem_of_find?_eq_some found

theorem mem_extensions_iff {l : Language} (listed : l ∈ all) (extension : String) :
    extension ∈ l.extensions ↔ ofExtension? extension = some l.name := by
  constructor
  · exact fun member => (all_extensions l listed extension member).1
  · intro found
    obtain ⟨m, first, same⟩ := Option.map_eq_some_iff.mp found
    have member : extension ∈ m.extensions := by simpa using List.find?_some first
    rwa [all_names m (List.mem_of_find?_eq_some first) l listed same] at member

/-- An extension that belongs to a language is not empty and holds no backslash. -/
theorem plain_of_ofExtension? {extension language : String}
    (known : ofExtension? extension = some language) :
    extension ≠ "" ∧ '\\' ∉ extension.toList := by
  obtain ⟨l, first, -⟩ := Option.map_eq_some_iff.mp known
  have member : extension ∈ l.extensions := by simpa using List.find?_some first
  exact (all_extensions l (List.mem_of_find?_eq_some first) extension member).2

/-- A file name whose extension belongs to a language. -/
def Names (language : String) (name : List Char) : Prop :=
  ∃ extension, HasExtension name extension ∧
    ofExtension? (Text.asciiLower (String.ofList extension)) = some language

theorem ofPath?_eq_some_iff (path language : String) : ofPath? path = some language ↔
    ∃ name, lastNamed? (pieces path) = some name ∧ Names language name := by
  have found : ofPath? path = some language ↔ ∃ name extension, fileName? path = some name ∧
      HasExtension name.toList extension.toList ∧
        ofExtension? (Text.asciiLower extension) = some language := by
    simp only [ofPath?_eq, Language.extension?, Option.bind_eq_some_iff, Option.map_eq_some_iff,
      extension?_eq_some_iff]
    grind
  rw [found]
  constructor
  · rintro ⟨name, extension, named, stemmed, known⟩
    exact ⟨name.toList, ((fileName?_eq_some_iff path name).mp named).1, extension.toList, stemmed,
      by simpa using known⟩
  · rintro ⟨name, last, extension, stemmed, known⟩
    refine ⟨String.ofList name, String.ofList extension, ?_, by simpa using stemmed, known⟩
    rw [fileName?_eq_some_iff, String.toList_ofList]
    refine ⟨last, fun up => (plain_of_ofExtension? known).1 ?_⟩
    obtain rfl : name = "..".toList := by rw [← up, String.toList_ofList]
    obtain ⟨_ | ⟨c, stem⟩, nonempty, split, -⟩ := stemmed
    · exact absurd rfl nonempty
    · obtain ⟨-, -, rfl⟩ : c = '.' ∧ stem = [] ∧ extension = [] := by
        simpa [List.append_eq_singleton_iff, eq_comm] using split
      rfl

/-- A name whose extension belongs to a language has its last dot behind every backslash. -/
theorem Names.cut {language : String} {before behind : List Char}
    (names : Names language (before ++ '\\' :: behind)) :
    ∃ stem extension, behind = stem ++ '.' :: extension ∧ '.' ∉ extension ∧
      ofExtension? (Text.asciiLower (String.ofList extension)) = some language := by
  obtain ⟨extension, ⟨stem, -, split, last⟩, known⟩ := names
  have free : '\\' ∉ extension := by
    intro member
    apply (plain_of_ofExtension? known).2
    simpa [Text.asciiLower] using List.mem_map_of_mem (f := Char.toLower) member
  rcases Text.cut_later free split with ⟨-, same, -⟩ | ⟨stem, -, rfl⟩
  · simp at same
  · exact ⟨stem, extension, rfl, last, known⟩

theorem names_behind_iff {language : String} {before behind : List Char}
    (stemmed : ¬ Stemless behind) :
    Names language (before ++ '\\' :: behind) ↔ Names language behind := by
  constructor
  · intro names
    obtain ⟨stem, extension, rfl, last, known⟩ := names.cut
    refine ⟨extension, ⟨stem, ?_, rfl, last⟩, known⟩
    rintro rfl
    exact stemmed (.inr ⟨rfl, last⟩)
  · rintro ⟨extension, ⟨stem, -, rfl, last⟩, known⟩
    exact ⟨extension, ⟨before ++ '\\' :: stem, by simp, by simp, last⟩, known⟩

theorem Names.stemmed {language : String} {name : List Char} (names : Names language name) :
    ¬ Stemless name := by
  obtain ⟨extension, ⟨stem, nonempty, rfl, last⟩, -⟩ := names
  obtain ⟨c, stem, rfl⟩ := List.exists_cons_of_ne_nil nonempty
  simp [Stemless]

/-- A name that ends in a backslash, or in one and a dot, has no known extension. -/
theorem Names.isNamed_behind {language : String} {before behind : List Char}
    (names : Names language (before ++ '\\' :: behind)) : isNamed behind = true := by
  obtain ⟨stem, extension, rfl, -, known⟩ := names.cut
  have nonempty : extension ≠ [] := by
    rintro rfl
    exact (plain_of_ofExtension? known).1 rfl
  rcases stem with _ | ⟨c, stem⟩ <;> simp [isNamed, nonempty]

/-! ### Reading a path with either separator -/

theorem isNamed_of_stemmed {text : List Char} (stemmed : ¬ Stemless text) : isNamed text = true := by
  rcases text with _ | ⟨c, rest⟩
  · simp [Stemless] at stemmed
  · by_contra idle
    simp [isNamed] at idle
    simp [Stemless, idle] at stemmed

theorem ofPath?_toSlash {path : String} (clear : Clear path) :
    ofPath? (Glob.toSlash path) = ofPath? path := by
  refine Option.ext fun language => ?_
  rw [ofPath?_eq_some_iff, ofPath?_eq_some_iff, pieces_toSlash]
  cases last : lastNamed? (pieces path) with
  | none => simp [lastNamed?_slashed_of_none last]
  | some name =>
    by_cases mixed : '\\' ∈ name
    · obtain ⟨before, behind, rfl, free⟩ := Text.exists_last mixed
      have stemmed := (clear_iff free last).mp clear
      have behind := lastNamed?_slashed_of_some last
        (lastNamed?_splitOn_behind free (isNamed_of_stemmed stemmed))
      simp [behind, names_behind_iff stemmed]
    · have named : isNamed name = true := List.find?_some last
      simp [lastNamed?_slashed_of_some last (lastNamed?_splitOn_of_free mixed named)]

/-- Of the two readings of a path that is not clear, one knows no language. -/
theorem ofPath?_of_not_clear {path : String} (veiled : ¬ Clear path) :
    ofPath? path = none ∨ ofPath? (Glob.toSlash path) = none := by
  by_contra known
  obtain ⟨⟨language, raw⟩, other, slashed⟩ := by
    simpa [← Option.isSome_iff_ne_none, Option.isSome_iff_exists] using known
  obtain ⟨name, last, names⟩ := (ofPath?_eq_some_iff ..).mp raw
  obtain ⟨part, slashed, names'⟩ := (ofPath?_eq_some_iff ..).mp slashed
  by_cases mixed : '\\' ∈ name
  · obtain ⟨before, behind, rfl, free⟩ := Text.exists_last mixed
    rw [pieces_toSlash, lastNamed?_slashed_of_some last
      (lastNamed?_splitOn_behind free names.isNamed_behind)] at slashed
    obtain rfl := Option.some.inj slashed
    exact veiled ((clear_iff free last).mpr names'.stemmed)
  · exact veiled (clear_of_free fun other found => by simp_all)

theorem ofPath?_toSlash_iff (path : String) : ofPath? path = ofPath? (Glob.toSlash path) ↔
    Clear path ∨ ofPath? path = none ∧ ofPath? (Glob.toSlash path) = none := by
  constructor
  · intro same
    by_cases clear : Clear path
    · exact .inl clear
    · rcases ofPath?_of_not_clear clear with raw | slashed
      · exact .inr ⟨raw, same ▸ raw⟩
      · exact .inr ⟨same.trans slashed, slashed⟩
  · rintro (clear | ⟨raw, slashed⟩)
    · exact (ofPath?_toSlash clear).symm
    · rw [raw, slashed]

/-- Belonging to a language is being taken for it, under any of its names. -/
theorem owns_iff_ofPath? (name path : String) : owns name path = true ↔
    ∃ language, canonical? name = some language ∧ ofPath? path = some language := by
  simp only [owns_iff, ofPath?_eq, canonical?, Option.mem_def, Option.map_eq_some_iff,
    Option.bind_eq_some_iff]
  constructor
  · rintro ⟨l, found, extension, given, member⟩
    exact ⟨l.name, ⟨l, found, rfl⟩, extension, given,
      (mem_extensions_iff (mem_of_find? found) extension).mp member⟩
  · rintro ⟨-, ⟨l, found, rfl⟩, extension, given, belongs⟩
    exact ⟨l, found, extension, given,
      (mem_extensions_iff (mem_of_find? found) extension).mpr belongs⟩

theorem matchesFile_language_iff {name language : String} (known : canonical? name = some language)
    (path : String) : { Selector.empty with languages := [name] }.matchesFile path = true ↔
      ofPath? (Glob.toSlash path) = some language := by
  simp [Selector.matchesFile, Selector.empty, owns_iff_ofPath?, known]

theorem owns_congr {path other : String} (same : ofPath? path = ofPath? other) (name : String) :
    owns name path = owns name other := by
  rw [Bool.eq_iff_iff, owns_iff_ofPath?, owns_iff_ofPath?, same]

/-- The language of a rule depends on its first file alone, and there on what it is taken for. -/
theorem language_congr {path other : String} (same : ofPath? path = ofPath? other)
    (selector : Option Selector) (files others : List String) :
    Selector.language selector (path :: files) = Selector.language selector (other :: others) := by
  simp only [Selector.language, List.head?_cons, Option.bind_some, same]

/-- A filter for a language keeps what detection takes for that language behind slashes. Detection
takes a path for the same with backslashes as with slashes exactly when it is clear or knows it neither
way; so clear paths that differ in their separators alone are taken for the same by everyone. -/
theorem detection_agrees (path : String) :
    (∀ name language, canonical? name = some language →
      (({ Selector.empty with languages := [name] }.matchesFile path = true) ↔
        ofPath? (Glob.toSlash path) = some language)) ∧
    (ofPath? path = ofPath? (Glob.toSlash path) ↔
      Clear path ∨ ofPath? path = none ∧ ofPath? (Glob.toSlash path) = none) ∧
    ∀ other, Glob.toSlash path = Glob.toSlash other → Clear path → Clear other →
      ofPath? path = ofPath? other ∧
      (∀ name, owns name path = owns name other) ∧
      (∀ selector files others,
        Selector.language selector (path :: files) = Selector.language selector (other :: others)) ∧
      ∀ name language, canonical? name = some language →
        (({ Selector.empty with languages := [name] }.matchesFile path = true) ↔
          ofPath? path = some language) := by
  refine ⟨fun _ _ known => matchesFile_language_iff known path, ofPath?_toSlash_iff path, ?_⟩
  intro other separators clear clear'
  have same : ofPath? path = ofPath? other := by
    rw [← ofPath?_toSlash clear, ← ofPath?_toSlash clear', separators]
  refine ⟨same, owns_congr same, language_congr same, fun name language known => ?_⟩
  rw [matchesFile_language_iff known, ofPath?_toSlash clear]

/-- A hidden file with a stem is clear behind either separator. -/
theorem hidden_settings_agree :
    let path := "src\\.eslintrc.js"
    let other := "src/.eslintrc.js"
    Clear path ∧ Clear other ∧ ofPath? path = ofPath? other ∧
      (({ Selector.empty with languages := ["JS"] }.matchesFile path = true) ↔
        ofPath? path = some "javascript") := by
  intro path other
  have clear : Clear path ∧ Clear other := by decide +kernel
  have separators : Glob.toSlash path = Glob.toSlash other := by decide +kernel
  obtain ⟨same, -, -, kept⟩ := (detection_agrees path).2.2 other separators clear.1 clear.2
  exact ⟨clear.1, clear.2, same, kept "JS" "javascript" (by decide +kernel)⟩

/-- A hidden file without a stem is no script behind a slash, and a filter for scripts drops it behind a
backslash too; but there detection takes it for one. -/
theorem hidden_script_detected :
    canonical? "js" = some "javascript" ∧ Glob.toSlash "src\\.js" = Glob.toSlash "src/.js" ∧
    ofPath? "src\\.js" = some "javascript" ∧ ofPath? "src/.js" = none ∧
    { Selector.empty with languages := ["js"] }.matchesFile "src\\.js" = false := by
  decide +kernel

end Language
end PolicyLint
