import Mathlib.Data.List.Sort
import PolicyLint.Collection
import PolicyLint.Proofs.FilePattern.Covering
import PolicyLint.Proofs.Text.Order
/-!
What is collected. The files come in order, each once, whatever the order of the patterns. A file is listed
by a path that leads to it from the root; a pattern matches it, no directory that is always left out is on
its way, and it lies in no excluded directory whose path is spelled as the file's is.
-/
namespace PolicyLint.Collection

open PolicyLint.Path (Component components course inner isAbsolute below?)
open FilePattern (IsPlain Matches compile expand)

variable {tree : FileTree} {base : Place} {root : String} {patterns excluded : List String}

/-! ### All patterns -/

/-- One of the patterns contributes a file. -/
def Contributed (tree : FileTree) (base : Place) (root : String) (patterns excluded : List String)
    (file : String) : Prop :=
  ∃ pattern ∈ patterns, ∃ found, ofPattern tree base root excluded pattern = .ok found ∧ file ∈ found

theorem mem_flatten_iff {lists : List (List String)}
    (mapped : patterns.mapM (ofPattern tree base root excluded) = .ok lists) {file : String} :
    file ∈ lists.flatten ↔ Contributed tree base root patterns excluded file := by
  obtain ⟨ofList, ofPattern'⟩ := Document.mem_of_mapM mapped
  rw [List.mem_flatten]
  constructor
  · rintro ⟨list, member, inside⟩
    obtain ⟨pattern, given, found⟩ := ofList list member
    exact ⟨pattern, given, list, found, inside⟩
  · rintro ⟨pattern, given, list, found, inside⟩
    obtain ⟨other, member, same⟩ := ofPattern' pattern given
    obtain rfl := Except.ok.inj (same.symm.trans found)
    exact ⟨other, member, inside⟩

/-- The files are those that the patterns contribute, in order, each once. -/
theorem collect_eq_ok_iff {files : List String} : collect tree base root patterns excluded = .ok files ↔
    (∀ pattern ∈ patterns, ∃ found, ofPattern tree base root excluded pattern = .ok found) ∧
      files.Pairwise (· < ·) ∧ ∀ file, file ∈ files ↔ Contributed tree base root patterns excluded file := by
  unfold collect
  rw [Document.bind_eq_ok_iff]
  constructor
  · rintro ⟨lists, mapped, done⟩
    obtain rfl := Except.ok.inj done
    refine ⟨fun pattern given => ?_, Text.sortedDistinct_strict _, fun file => ?_⟩
    · exact ((Document.mem_of_mapM mapped).2 pattern given).imp fun _ found => found.2
    · rw [Text.mem_sortedDistinct, mem_flatten_iff mapped]
  · rintro ⟨each, ordered, members⟩
    obtain ⟨lists, mapped⟩ := Document.exists_mapM each
    refine ⟨lists, mapped, congrArg Except.ok ?_⟩
    refine List.Pairwise.eq_of_mem_iff (Text.sortedDistinct_strict _) ordered fun {file} => ?_
    rw [Text.mem_sortedDistinct, mem_flatten_iff mapped, members]

theorem collect_eq_error {failure : Failure}
    (failed : collect tree base root patterns excluded = .error failure) :
    ∃ pattern ∈ patterns, ∃ fault, expand tree base (Path.join root pattern) = .error fault ∧
      failure = .pattern pattern fault.message := by
  unfold collect at failed
  cases mapped : patterns.mapM (ofPattern tree base root excluded) with
  | ok lists =>
    rw [mapped] at failed
    cases failed
  | error other =>
    rw [mapped] at failed
    obtain rfl := Except.error.inj failed
    obtain ⟨pattern, given, fault⟩ := Document.mapM_eq_error mapped
    unfold ofPattern at fault
    split at fault
    · cases fault
    · rename_i cause expanded
      exact ⟨pattern, given, cause, expanded, (Except.error.inj fault).symm⟩

/-- Patterns with the same members collect the same files, or fail alike. -/
theorem toOption_collect {others : List String} (same : ∀ pattern, pattern ∈ patterns ↔ pattern ∈ others) :
    (collect tree base root patterns excluded).toOption =
      (collect tree base root others excluded).toOption := by
  have alike : ∀ files, collect tree base root patterns excluded = .ok files ↔
      collect tree base root others excluded = .ok files := by
    simp only [collect_eq_ok_iff, Contributed, same, implies_true]
  cases first : collect tree base root patterns excluded with
  | ok files => rw [(alike files).mp first]
  | error failure =>
    cases second : collect tree base root others excluded with
    | ok files => rw [(alike files).mpr second] at first; cases first
    | error other => rfl

/-- More patterns, if they are good, add their files. -/
theorem collect_append {more files added : List String}
    (first : collect tree base root patterns excluded = .ok files)
    (second : collect tree base root more excluded = .ok added) :
    ∃ all, collect tree base root (patterns ++ more) excluded = .ok all ∧
      ∀ file, file ∈ all ↔ file ∈ files ∨ file ∈ added := by
  obtain ⟨each, -, members⟩ := collect_eq_ok_iff.mp first
  obtain ⟨eachMore, -, membersMore⟩ := collect_eq_ok_iff.mp second
  have both : ∀ file, Contributed tree base root (patterns ++ more) excluded file ↔
      file ∈ files ∨ file ∈ added := by
    intro file
    simp only [members, membersMore, Contributed, List.mem_append, or_and_right, exists_or]
  refine ⟨Text.sortedDistinct (files ++ added), collect_eq_ok_iff.mpr ⟨fun pattern given => ?_,
    Text.sortedDistinct_strict _, fun file => ?_⟩, fun file => ?_⟩
  · exact (List.mem_append.mp given).elim (each pattern) (eachMore pattern)
  · rw [both, Text.mem_sortedDistinct, List.mem_append]
  · rw [Text.mem_sortedDistinct, List.mem_append]

/-! ### Listed paths -/

theorem listed?_eq_some_iff {path file : String} : listed? root path = some file ↔
    isSkipped (fromRoot root path) = false ∧
      Text.join "/" ((fromRoot root path).map Component.text) = file := by
  unfold listed?
  dsimp only
  split <;> simp_all

/-- Behind a root that is not empty come steps. -/
theorem isStep_of_below {path : String} {rest : List Component} (nonempty : root ≠ "")
    (split : components path = components root ++ rest) : ∀ c ∈ rest, c.IsStep := by
  obtain ⟨first, before, lead⟩ := List.exists_cons_of_ne_nil (Path.components_ne_nil nonempty)
  rw [lead, List.cons_append] at split
  exact fun c member => Path.isStep_of_components split c (List.mem_append_right _ member)

/-- What a path is listed as, leads from the root to the place of the path. -/
structure LeadsBack (root path : String) (listed : List Component) : Prop where
  written : components (Text.join "/" (listed.map Component.text)) = listed
  course : course (Path.join root (Text.join "/" (listed.map Component.text))) = Path.course path
  absolute : isAbsolute (Path.join root (Text.join "/" (listed.map Component.text))) = isAbsolute path

theorem isAbsolute_written (path : String) :
    isAbsolute (Text.join "/" ((components path).map Component.text)) = isAbsolute path := by
  rw [Bool.eq_iff_iff, Path.isAbsolute_iff_mem, Path.isAbsolute_iff_mem, Path.components_written]

/-- The way from the root. -/
theorem leadsBack_below {path : String} {rest : List Component}
    (split : components path = components root ++ rest) : LeadsBack root path rest := by
  by_cases empty : root = ""
  · subst empty
    obtain rfl : components path = rest := split
    have whole := Path.components_written path
    refine ⟨whole, ?_, ?_⟩
    · rw [Path.join_empty_left, course, whole, course]
    · rw [Path.join_empty_left, isAbsolute_written]
  · have proper := isStep_of_below empty split
    have relative := Path.isAbsolute_texts proper
    have fresh : .root ∉ rest := fun inside => proper _ inside
    refine ⟨Path.components_texts proper, ?_, ?_⟩
    · rw [Path.course_join root relative, Path.course_texts proper, course, course, split,
        List.filter_append, Path.filter_steps proper]
    · rw [Path.isAbsolute_join empty relative, Bool.eq_iff_iff, Path.isAbsolute_iff_mem,
        Path.isAbsolute_iff_mem, split, List.mem_append, or_iff_left fresh]

/-- A path as it is leads back from the current directory, and an absolute one from anywhere. -/
theorem leadsBack_whole {path : String} (reach : isAbsolute path = true ∨ components root = [.current]) :
    LeadsBack root path (components path) := by
  have whole := Path.components_written path
  cases rooted : isAbsolute path with
  | true =>
    have absolute := (isAbsolute_written path).trans rooted
    refine ⟨whole, ?_, ?_⟩
    · rw [Path.join_absolute root absolute, course, whole, course]
    · rw [Path.join_absolute root absolute, isAbsolute_written]
  | false =>
    have relative := (isAbsolute_written path).trans rooted
    have alone : components root = [.current] := by simpa [rooted] using reach
    have nonempty : root ≠ "" := fun empty => by rw [empty] at alone; cases alone
    refine ⟨whole, ?_, ?_⟩
    · rw [Path.course_join root relative, course, alone, course, whole]
      rfl
    · rw [Path.isAbsolute_join nonempty relative, rooted, Bool.eq_false_iff, Ne, Path.isAbsolute_iff_mem, alone]
      decide

/-- A path is listed as the way from the root, or as it is where it does not begin with the root; then it
leads from the root to the same place if it is absolute, or the root is the current directory. -/
theorem leadsBack_fromRoot {path : String}
    (reach : (below? root path).isSome = true ∨ isAbsolute path = true ∨ components root = [.current]) :
    LeadsBack root path (fromRoot root path) := by
  unfold fromRoot
  cases below : below? root path with
  | some rest => exact leadsBack_below (Path.below?_eq_some_iff.mp below)
  | none =>
    rw [below] at reach
    exact leadsBack_whole (reach.resolve_left (by simp))

theorem listed_course {path file : String} (listed : listed? root path = some file)
    (reach : (below? root path).isSome = true ∨ isAbsolute path = true ∨ components root = [.current]) :
    components file = fromRoot root path ∧ course (Path.join root file) = course path ∧
      isAbsolute (Path.join root file) = isAbsolute path := by
  obtain ⟨-, rfl⟩ := listed?_eq_some_iff.mp listed
  obtain ⟨written, same, absolute⟩ := leadsBack_fromRoot reach
  exact ⟨written, same, absolute⟩

/-! ### Paths behind a root -/

/-- A root whose components begin the paths behind it, or the current directory. -/
def IsSpelled (root : String) : Prop :=
  components root = [.current] ∨ .current ∉ components root

/-- What a relative pattern finds is seen from the root. -/
theorem below_of_mem_expand (sound : tree.WellFormed) (plain : IsPlain root) (spelled : IsSpelled root)
    {pattern path : String} {paths : List String} (relative : isAbsolute pattern = false)
    (expanded : expand tree base (Path.join root pattern) = .ok paths) (member : path ∈ paths)
    (file : tree.isFileAt base path = true) :
    (below? root path).isSome = true ∨ components root = [.current] := by
  rcases spelled with alone | bare
  · exact .inr alone
  · refine .inl (Path.below?_isSome_iff.mpr ?_)
    by_cases empty : root = ""
    · subst empty
      exact List.nil_prefix
    · have fresh := FilePattern.bare_of_mem_expand sound plain empty bare relative expanded member file
      obtain ⟨matched, -⟩ := FilePattern.matches_of_mem_expand sound expanded member file
      obtain ⟨-, -, steps, -, -, split⟩ := matched.of_join plain relative
      rw [Path.course_of_bare fresh, Path.course_of_bare bare] at split
      exact ⟨steps, split.symm⟩

/-- What a relative pattern finds is listed by a relative path. -/
theorem relative_of_listed {pattern path file : String} (relative : isAbsolute pattern = false)
    (begins : isAbsolute (Path.join root pattern) = isAbsolute path)
    (reach : (below? root path).isSome = true ∨ components root = [.current])
    (written : components file = fromRoot root path)
    (same : isAbsolute (Path.join root file) = isAbsolute path) : isAbsolute file = false := by
  by_contra absolute
  have absolute : isAbsolute file = true := by simpa using absolute
  rw [Path.join_absolute root absolute, absolute] at same
  rw [← same] at begins
  have nonempty : root ≠ "" := by
    rintro rfl
    rw [Path.join_empty_left, relative] at begins
    contradiction
  rw [Path.isAbsolute_join nonempty relative, Path.isAbsolute_iff_mem] at begins
  rcases reach with below | alone
  · obtain ⟨rest, below⟩ := Option.isSome_iff_exists.mp below
    have split := Path.below?_eq_some_iff.mp below
    rw [fromRoot, below, Option.getD_some] at written
    rw [Path.isAbsolute_iff_mem, written] at absolute
    exact isStep_of_below nonempty split _ absolute
  · rw [alone] at begins
    exact absurd begins (by decide)

/-- A relative pattern matches a path as it is listed; an absolute one does not look at the root. -/
def MatchesFrom (root pattern file : String) : Prop :=
  if isAbsolute pattern then Matches pattern (Path.join root file) else Matches pattern file

theorem matchesFrom_of_mem_expand (sound : tree.WellFormed) (plain : IsPlain root) (spelled : IsSpelled root)
    {pattern path file : String} {paths : List String}
    (expanded : expand tree base (Path.join root pattern) = .ok paths) (member : path ∈ paths)
    (found : tree.isFileAt base path = true) (listed : listed? root path = some file) :
    MatchesFrom root pattern file ∧ components file = fromRoot root path ∧
      course (Path.join root file) = course path := by
  obtain ⟨matched, -⟩ := FilePattern.matches_of_mem_expand sound expanded member found
  unfold MatchesFrom
  cases relative : isAbsolute pattern
  · have reach := below_of_mem_expand sound plain spelled relative expanded member found
    obtain ⟨written, same, absolute⟩ := listed_course listed (reach.imp_right .inr)
    obtain ⟨ends, compiled, steps, read, covers, split⟩ := matched.of_join plain relative
    have under := relative_of_listed relative matched.2.1 reach written absolute
    refine ⟨?_, written, same⟩
    rw [if_neg (by simp)]
    rw [← same, Path.course_join root under, Path.course_relative under] at split
    exact ⟨ends, relative.trans under.symm, compiled, read, List.append_cancel_left split ▸ covers⟩
  · rw [Path.join_absolute root relative] at matched
    obtain ⟨ends, begins, compiled, read, covers⟩ := matched
    obtain ⟨written, same, absolute⟩ := listed_course listed (.inr (.inl (begins ▸ relative)))
    refine ⟨?_, written, same⟩
    rw [if_pos rfl]
    exact ⟨ends, begins.trans absolute.symm, compiled, read,
      FilePattern.inner_eq_of_course absolute same ▸ covers⟩

/-! ### Excluded directories -/

/-- A directory and a path are spelled alike: up to some point they are the same, and from there on both
are names. Where the part they share goes up, it is the root. -/
def SpelledAlike (root directory path : String) : Prop :=
  ∃ (shared : List Component) (inside names : List String), components directory = shared ++ inside.map .name ∧
    course path = shared ++ names.map .name ∧ (.parent ∈ shared → shared = components root)

theorem SpelledAlike.congr {directory path other : String} (alike : SpelledAlike root directory path)
    (same : course path = course other) : SpelledAlike root directory other := by
  unfold SpelledAlike at alike ⊢
  rwa [same] at alike

theorem outside_of_keeps {d path : String} {place directory : Place}
    (apart : (below? d path).isSome = false) (alike : SpelledAlike root d path)
    (read : course path = components path ∨ course path = [])
    (leads : tree.leads? base path = some place) (there : tree.leads? base d = some directory) :
    ¬ directory <+: place := by
  obtain ⟨shared, inside, names, split, whole, -⟩ := alike
  rw [FileTree.leads?_eq, whole, FileTree.walk_append] at leads
  rw [FileTree.leads?, split, FileTree.walk_append] at there
  obtain ⟨foot, first, later⟩ := Option.bind_eq_some_iff.mp leads
  rw [first, Option.bind_some] at there
  rw [FileTree.walk_names_eq later, FileTree.walk_names_eq there, List.prefix_append_right_inj]
  intro within
  have leading : components d <+: course path := by
    rw [split, whole, List.prefix_append_right_inj]
    exact within.map _
  have below : components d <+: components path := by
    rcases read with same | nothing
    · exact same ▸ leading
    · rw [nothing] at leading
      rw [List.prefix_nil.mp leading]
      exact List.nil_prefix
  rw [Path.below?_isSome_iff.mpr below] at apart
  contradiction

/-- A path that is found begins with a dot only if it leads nowhere else. -/
theorem course_of_mem_expand (sound : tree.WellFormed) (plain : IsPlain root) (spelled : IsSpelled root)
    {pattern path d : String} {paths : List String}
    (expanded : expand tree base (Path.join root pattern) = .ok paths) (member : path ∈ paths)
    (file : tree.isFileAt base path = true) (alike : SpelledAlike root d path) :
    course path = components path ∨ course path = [] := by
  by_cases current : .current ∈ components path
  · obtain ⟨-, rooted, trim⟩ := FilePattern.matches_of_mem_expand sound expanded member file
    refine .inr ((trim current).resolve_right fun up => ?_)
    -- the step up is shared with the directory, so it is the root's
    obtain ⟨shared, inside, names, -, whole, atRoot⟩ := alike
    have shares : .parent ∈ shared := by simpa [whole] using up
    rw [atRoot shares] at shares
    have bare : .current ∉ components root :=
      spelled.resolve_left fun alone => absurd (alone ▸ shares) (by decide)
    have nonempty : root ≠ "" := fun empty => absurd (empty ▸ shares) (by decide)
    cases relative : isAbsolute pattern
    · exact FilePattern.bare_of_mem_expand sound plain nonempty bare relative expanded member file current
    · exact rooted (by rw [Path.join_absolute root relative, relative]) current
  · exact .inl (Path.course_of_bare current)

/-- What is collected for a root, as it is listed. -/
structure Collected (tree : FileTree) (base : Place) (root : String) (patterns excluded : List String)
    (file : String) : Prop where
  regular : ∃ place, tree.leads? base (Path.join root file) = some place ∧ tree.isFile place = true
  matched : ∃ pattern ∈ patterns, MatchesFrom root pattern file
  kept : ∀ name ∈ skippedNames, .name name ∉ components file
  outside : ∀ d ∈ excluded, SpelledAlike root d (Path.join root file) → ∀ place directory,
    tree.leads? base (Path.join root file) = some place → tree.leads? base d = some directory →
      ¬ directory <+: place

theorem mem_ofPattern_iff {pattern file : String} {found : List String}
    (given : ofPattern tree base root excluded pattern = .ok found) : file ∈ found ↔
      ∃ paths, expand tree base (Path.join root pattern) = .ok paths ∧
        ∃ path ∈ paths, keeps tree base excluded path = true ∧ listed? root path = some file := by
  unfold ofPattern at given
  cases expanded : expand tree base (Path.join root pattern) with
  | error fault => rw [expanded] at given; cases given
  | ok paths =>
    rw [expanded] at given
    obtain rfl := Except.ok.inj given
    simp [List.mem_filterMap, List.mem_filter, and_assoc]

theorem keeps_iff {path : String} : keeps tree base excluded path = true ↔
    tree.isFileAt base path = true ∧ ∀ d ∈ excluded, (below? d path).isSome = false := by
  simp [keeps]

theorem collected_of_contributed (sound : tree.WellFormed) (plain : IsPlain root) (spelled : IsSpelled root)
    {file : String} (contributed : Contributed tree base root patterns excluded file) :
    Collected tree base root patterns excluded file := by
  obtain ⟨pattern, given, found, contributes, inside⟩ := contributed
  obtain ⟨paths, expanded, path, member, kept, listed⟩ := (mem_ofPattern_iff contributes).mp inside
  obtain ⟨found, apart⟩ := keeps_iff.mp kept
  obtain ⟨matched, written, same⟩ :=
    matchesFrom_of_mem_expand sound plain spelled expanded member found listed
  have along : tree.leads? base (Path.join root file) = tree.leads? base path := by
    rw [FileTree.leads?_eq, FileTree.leads?_eq, same]
  refine ⟨?regular, ⟨pattern, given, matched⟩, ?kept, ?outside⟩
  case regular =>
    obtain ⟨place, resolved, regular⟩ := FileTree.isFileAt_iff.mp found
    exact ⟨place, by rw [along, FileTree.leads?_of_resolve resolved], regular⟩
  case kept =>
    obtain ⟨unskipped, -⟩ := listed?_eq_some_iff.mp listed
    rw [← written] at unskipped
    intro name skipped inside
    have never := List.any_eq_false.mp unskipped _ inside
    exact never (by simpa using skipped)
  case outside =>
    intro d member' alike place directory leads there
    rw [along] at leads
    refine outside_of_keeps (apart d member') (alike.congr same) ?_ leads there
    exact course_of_mem_expand sound plain spelled expanded member found (alike.congr same)

/-- Collecting fails for a pattern that cannot be read, or it lists files that are there, matched, and
neither left out nor excluded. Neither the order of the patterns nor their repetition counts, and patterns
that are added add their files. -/
theorem collect_sound (sound : tree.WellFormed) (plain : IsPlain root) (spelled : IsSpelled root)
    (patterns excluded : List String) :
    (match collect tree base root patterns excluded with
      | .ok files => files.Pairwise (· < ·) ∧ ∀ file ∈ files, Collected tree base root patterns excluded file
      | .error failure => ∃ pattern ∈ patterns, ∃ fault,
          compile (Path.join root pattern) = .error fault ∧ failure = .pattern pattern fault.message) ∧
    (∀ others, (∀ pattern, pattern ∈ patterns ↔ pattern ∈ others) →
      (collect tree base root patterns excluded).toOption =
        (collect tree base root others excluded).toOption) ∧
    ∀ more files added, collect tree base root patterns excluded = .ok files →
      collect tree base root more excluded = .ok added →
        ∃ all, collect tree base root (patterns ++ more) excluded = .ok all ∧
          ∀ file, file ∈ all ↔ file ∈ files ∨ file ∈ added := by
  refine ⟨?_, fun others same => toOption_collect same, fun more files added => collect_append⟩
  cases found : collect tree base root patterns excluded with
  | ok files =>
    obtain ⟨-, ordered, members⟩ := collect_eq_ok_iff.mp found
    exact ⟨ordered, fun file member => collected_of_contributed sound plain spelled ((members file).mp member)⟩
  | error failure =>
    obtain ⟨pattern, given, fault, expanded, same⟩ := collect_eq_error found
    refine ⟨pattern, given, fault, ?_, same⟩
    rw [FilePattern.expand_eq] at expanded
    cases compiled : compile (Path.join root pattern) with
    | ok components => rw [compiled] at expanded; cases expanded
    | error other =>
      rw [compiled] at expanded
      exact congrArg Except.error (Except.error.inj expanded)

/-- A repository with tools of its own. -/
def sampleTree : FileTree :=
  ⟨[(["repo"], .directory), (["repo", "a.js"], .file []), (["repo", ".tools"], .directory),
    (["repo", ".tools", "package.json"], .file [])]⟩

theorem collect_repository : Collected sampleTree ["repo"] "." ["**/*"] [".tools"] "a.js" := by
  have all := (@collect_sound sampleTree ["repo"] "." (by decide) (by decide) (.inl (by decide))
    ["**/*"] [".tools"]).1
  have found : collect sampleTree ["repo"] "." ["**/*"] [".tools"] = .ok ["a.js"] := by decide +kernel
  rw [found] at all
  exact all.2 "a.js" List.mem_cons_self

/-- The same directory is not excluded when its path begins with a dot, as the root does: the paths that
are found do not. -/
theorem dotted_directory_listed : ∃ files,
    collect sampleTree ["repo"] "." ["**/*"] ["./.tools"] = .ok files ∧
      ∃ file ∈ files, ∃ directory place, sampleTree.leads? ["repo"] "./.tools" = some directory ∧
        sampleTree.leads? ["repo"] (Path.join "." file) = some place ∧ directory <+: place := by
  have found : ofPattern sampleTree ["repo"] "." ["./.tools"] "**/*" =
      .ok ["a.js", ".tools/package.json"] := by decide +kernel
  refine ⟨Text.sortedDistinct ["a.js", ".tools/package.json"], ?_, ".tools/package.json", ?_,
    ["repo", ".tools"], ["repo", ".tools", "package.json"], by decide, by decide, by decide⟩
  · rw [collect, List.mapM_cons, found, List.mapM_nil]
    rfl
  · rw [Text.mem_sortedDistinct]
    decide

end PolicyLint.Collection
