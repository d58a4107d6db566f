import PolicyLint.Proofs.Collection.Soundness
import PolicyLint.Proofs.FilePattern.Reaching
/-!
Collecting in two places. Where the same files stand below two roots, patterns that stay below the root
collect the same files, under the same names. A pattern that cannot be read is reported for both, and the
positions that are reported differ as the lengths of the roots do.
-/
namespace PolicyLint.Collection

open PolicyLint.Path (Component components course inner isAbsolute below?)
open FilePattern (IsPlain Matches Covers Descends Opens Piece Fault compile expand room)

variable {tree : FileTree} {base place : Place} {root pattern : String}

/-! ### Standing at a root -/

/-- A path without wildcards leads to a directory of a tree. -/
structure Stands (tree : FileTree) (base : Place) (root : String) (place : Place) : Prop where
  sound : tree.WellFormed
  plain : IsPlain root
  spelled : IsSpelled root
  leads : tree.leads? base root = some place
  directory : tree.isDirectory place = true

theorem start_join (relative : isAbsolute pattern = false) :
    FileTree.start base (Path.join root pattern) = FileTree.start base root := by
  unfold FileTree.start
  by_cases empty : root = ""
  · rw [empty, Path.join_empty_left, relative, Path.isAbsolute_empty]
  · rw [Path.isAbsolute_join empty relative]

theorem Stands.isDirectory_start (stands : Stands tree base root place) :
    tree.isDirectory (FileTree.start base root) = true := by
  have leads := stands.leads
  rw [FileTree.leads?_start] at leads
  exact FileTree.isDirectory_of_walk (Path.isStep_inner root) leads stands.directory

theorem Stands.mem_below (stands : Stands tree base root place) {names : List String}
    (file : tree.isFile (place ++ names) = true) : ∃ entry, (names, entry) ∈ tree.below place := by
  obtain ⟨entry, there, -⟩ := FileTree.isFile_iff.mp file
  refine ⟨entry, stands.sound.mem_below_iff.mpr ⟨?_, there⟩⟩
  rintro rfl
  rw [List.append_nil, FileTree.isFile_of_isDirectory stands.directory] at file
  contradiction

/-- What goes on from the root by names leads below the root's place. -/
theorem Stands.isFile_below (stands : Stands tree base root place) {path : String} {names : List String}
    (file : tree.isFileAt base path = true) (split : course path = course root ++ names.map .name) :
    tree.leads? base path = some (place ++ names) ∧ tree.isFile (place ++ names) = true ∧ names ≠ [] := by
  obtain ⟨final, resolved, file⟩ := FileTree.isFileAt_iff.mp file
  have leads := FileTree.leads?_of_resolve resolved
  have walked := leads
  rw [FileTree.leads?_eq, split, FileTree.walk_append, ← FileTree.leads?_eq, stands.leads,
    Option.bind_some] at walked
  obtain rfl := FileTree.walk_names_eq walked
  obtain ⟨entry, below⟩ := stands.mem_below file
  exact ⟨leads, file, (stands.sound.mem_below_iff.mp below).1⟩

/-- A root that does not begin with a name, and goes nowhere, is the current directory. -/
theorem IsSpelled.bare_or_current (spelled : IsSpelled root) :
    (root ≠ "" ∧ .current ∉ components root) ∨ components root = [] ∨ components root = [.current] := by
  rcases spelled with alone | bare
  · exact .inr (.inr alone)
  · by_cases empty : root = ""
    · exact .inr (.inl (by rw [empty]; rfl))
    · exact .inl ⟨empty, bare⟩

/-- Names that lead on from the current directory are written without it. -/
theorem fromRoot_current (here : components root = [] ∨ components root = [.current]) {path : String}
    (bare : .current ∉ components path) : fromRoot root path = components path := by
  unfold fromRoot
  cases below : below? root path with
  | none => rfl
  | some rest =>
    have whole := Path.below?_eq_some_iff.mp below
    rcases here with same | same
    · rw [same, List.nil_append] at whole
      exact whole.symm
    · rw [whole, same] at bare
      simp at bare

/-- What is found below a root is listed by the names that lead to it. -/
theorem Stands.fromRoot_eq (stands : Stands tree base root place) {paths : List String} {path : String}
    (relative : isAbsolute pattern = false) (expanded : expand tree base (Path.join root pattern) = .ok paths)
    (member : path ∈ paths) (file : tree.isFileAt base path = true) {names : List String}
    (split : course path = course root ++ names.map .name) : fromRoot root path = names.map .name := by
  obtain ⟨-, -, more⟩ := stands.isFile_below file split
  rcases stands.spelled.bare_or_current with ⟨nonempty, named⟩ | here
  · have bare := FilePattern.bare_of_mem_expand stands.sound stands.plain nonempty named relative expanded
      member file
    rw [Path.course_of_bare bare, Path.course_of_bare named] at split
    rw [fromRoot, Path.below?_eq_some_iff.mpr split, Option.getD_some]
  · have nothing : course root = [] := by rcases here with same | same <;> rw [course, same] <;> rfl
    rw [nothing, List.nil_append] at split
    have bare : .current ∉ components path := by
      intro current
      obtain ⟨-, -, trim⟩ := FilePattern.matches_of_mem_expand stands.sound expanded member file
      rcases trim current with empty | up
      · rw [split] at empty
        exact more (List.map_eq_nil_iff.mp empty)
      · rw [split] at up
        simp at up
    rw [fromRoot_current here bare, ← Path.course_of_bare bare, split]

/-! ### What a pattern contributes -/

theorem exists_compiled {excluded files : List String}
    (found : ofPattern tree base root excluded pattern = .ok files) :
    ∃ whole, compile (Path.join root pattern) = .ok whole := by
  unfold ofPattern at found
  rw [FilePattern.expand_eq] at found
  cases compiled : compile (Path.join root pattern) with
  | ok whole => exact ⟨whole, rfl⟩
  | error fault => rw [compiled] at found; cases found

/-- The paths on the way to a file are short enough to be looked up, and no empty component stands where the
way begins at the current directory. -/
structure Fits (tree : FileTree) (root : String) (place : Place) (pattern : String) : Prop where
  opens : ∀ compiled, compile (Path.join root pattern) = .ok compiled → isAbsolute root = false →
    Opens compiled
  short : ∀ compiled, compile (Path.join root pattern) = .ok compiled → ∀ e ∈ tree.below place,
    1 + 2 * compiled.length + room (inner (Text.splitOn '/' root) ++ e.1.map .name) < FileTree.maxPathSize

/-- A file below a root that a pattern covers, and that is not left out, by the names that lead to it. -/
def Holds (tree : FileTree) (place : Place) (pattern : String) (compiled : List (List Piece))
    (file : String) : Prop :=
  ∃ names : List String, Text.join "/" names = file ∧ Text.endsWith "/" pattern = false ∧
    Covers compiled (names.map .name) ∧ tree.isFile (place ++ names) = true ∧
      isSkipped (names.map .name) = false

/-- The empty pattern covers nothing. -/
theorem pattern_ne_empty {compiled : List (List Piece)} (read : compile pattern = .ok compiled)
    {names : List String} (covers : Covers compiled (names.map .name))
    (proper : ∀ name ∈ names, FileTree.IsName name) : pattern ≠ "" := by
  rintro rfl
  have nothing : compile "" = .ok [[]] := by decide +kernel
  obtain rfl := Except.ok.inj (nothing.symm.trans read)
  generalize same : names.map Component.name = steps at covers
  cases covers with
  | stay _ behind more => exact more behind.eq_nil_of_nil
  | up => cases names <;> cases same
  | @name _ _ _ name _ covered =>
    cases names with
    | nil => cases same
    | cons first names =>
      obtain ⟨given, -⟩ := List.cons_eq_cons.mp same
      obtain rfl := Component.name.inj given
      rw [FilePattern.matchesName, List.isEmpty_iff, String.toList_eq_nil_iff] at covered
      exact (proper first List.mem_cons_self).1 covered

theorem Stands.isName_of_isFile (stands : Stands tree base root place) {names : List String}
    (file : tree.isFile (place ++ names) = true) : ∀ name ∈ names, FileTree.IsName name :=
  fun _ member => stands.sound.isName_of_there (FileTree.there_of_isFile file)
    (List.mem_append_right _ member)

/-- What a pattern covers below a root is found. -/
theorem Stands.exists_mem_expand (stands : Stands tree base root place) (relative : isAbsolute pattern = false)
    (fits : Fits tree root place pattern) {compiled whole : List (List Piece)}
    (read : compile pattern = .ok compiled) (readAll : compile (Path.join root pattern) = .ok whole)
    (open' : Text.endsWith "/" pattern = false) {names : List String}
    (covers : Covers compiled (names.map .name)) (file : tree.isFile (place ++ names) = true) :
    ∃ paths path, expand tree base (Path.join root pattern) = .ok paths ∧ path ∈ paths ∧
      tree.resolve base path = .ok (place ++ names) := by
  have proper := stands.isName_of_isFile file
  have nonempty := pattern_ne_empty read covers proper
  obtain ⟨entry, below⟩ := stands.mem_below file
  obtain ⟨more, -⟩ := stands.sound.mem_below_iff.mp below
  obtain ⟨behind, same, both⟩ := FilePattern.compile_of_join stands.plain relative nonempty readAll
  obtain rfl := Except.ok.inj (same.symm.trans read)
  have covers := covers.literals (by simpa using more) (FilePattern.leading root)
  rw [FilePattern.inner_leading, ← both] at covers
  have short := fits.short whole readAll (names, entry) below
  dsimp only at short
  refine FilePattern.exists_mem_expand stands.sound ?_ readAll (FilePattern.endsWith_join relative nonempty open')
    covers ?_ file ?_ short (fun absolute => ?_)
  · rw [start_join relative]
    exact stands.isDirectory_start
  · intro c member
    rcases List.mem_append.mp member with lead | inside
    · exact Path.isStep_inner root c lead
    · obtain ⟨name, given, rfl⟩ := List.mem_map.mp inside
      exact (proper name given).isStep
  · rw [start_join relative, FileTree.walk_append, ← FileTree.leads?_start, stands.leads, Option.bind_some]
    exact stands.sound.walk_names (FileTree.there_of_isFile file)
  · refine fits.opens whole readAll ?_
    by_cases empty : root = ""
    · rw [empty, Path.isAbsolute_empty]
    · rwa [Path.isAbsolute_join empty relative] at absolute

/-- What a pattern finds below a root depends only on what stands there. -/
theorem Stands.mem_ofPattern_iff (stands : Stands tree base root place) (relative : isAbsolute pattern = false)
    (fits : Fits tree root place pattern) {compiled : List (List Piece)}
    (read : compile pattern = .ok compiled) (descends : Descends compiled) {files : List String}
    (found : ofPattern tree base root [] pattern = .ok files) {file : String} :
    file ∈ files ↔ Holds tree place pattern compiled file := by
  -- whatever is found goes on from the root by names that the pattern covers
  have spelled : ∀ {paths path}, expand tree base (Path.join root pattern) = .ok paths → path ∈ paths →
      tree.isFileAt base path = true → Text.endsWith "/" pattern = false ∧
        ∃ names : List String, Covers compiled (names.map .name) ∧ fromRoot root path = names.map .name ∧
          tree.isFile (place ++ names) = true ∧ tree.leads? base path = some (place ++ names) := by
    intro paths path expanded member file
    obtain ⟨matched, -⟩ := FilePattern.matches_of_mem_expand stands.sound expanded member file
    obtain ⟨open', others, steps, again, covers, split⟩ := matched.of_join stands.plain relative
    obtain rfl := Except.ok.inj (again.symm.trans read)
    obtain ⟨names, rfl⟩ := covers.names descends
    obtain ⟨leads, there, -⟩ := stands.isFile_below file split
    exact ⟨open', names, covers, stands.fromRoot_eq relative expanded member file split, there, leads⟩
  rw [Collection.mem_ofPattern_iff found]
  constructor
  · rintro ⟨paths, expanded, path, member, kept, listed⟩
    obtain ⟨file, -⟩ := keeps_iff.mp kept
    obtain ⟨open', names, covers, seen, there, -⟩ := spelled expanded member file
    obtain ⟨unskipped, written⟩ := listed?_eq_some_iff.mp listed
    rw [seen] at unskipped written
    exact ⟨names, by rwa [Path.texts_names] at written, open', covers, there, unskipped⟩
  · rintro ⟨names, written, open', covers, file, unskipped⟩
    obtain ⟨whole, readAll⟩ := exists_compiled found
    obtain ⟨paths, path, expanded, member, resolved⟩ :=
      stands.exists_mem_expand relative fits read readAll open' covers file
    have found := FileTree.isFileAt_iff.mpr ⟨_, resolved, file⟩
    obtain ⟨-, others, -, seen, -, leads⟩ := spelled expanded member found
    rw [FileTree.leads?_of_resolve resolved, Option.some.injEq, List.append_cancel_left_eq] at leads
    subst leads
    exact ⟨paths, expanded, path, member, keeps_iff.mpr ⟨found, nofun⟩,
      listed?_eq_some_iff.mpr ⟨seen ▸ unskipped, by rwa [seen, Path.texts_names]⟩⟩

/-! ### Patterns that cannot be read -/

theorem ofPattern_of_fault {excluded : List String} {fault : Fault}
    (failed : compile (Path.join root pattern) = .error fault) :
    ofPattern tree base root excluded pattern = .error (.pattern pattern fault.message) := by
  rw [ofPattern, FilePattern.expand_eq, failed]
  rfl

theorem exists_ofPattern {excluded : List String} {whole : List (List Piece)}
    (read : compile (Path.join root pattern) = .ok whole) :
    ∃ found, ofPattern tree base root excluded pattern = .ok found := by
  rw [ofPattern, FilePattern.expand_eq, read]
  exact ⟨_, rfl⟩

theorem exists_compile_join (plain : IsPlain root) : ∃ whole, compile (Path.join root "") = .ok whole := by
  have parsed := FilePattern.parse_plain (FilePattern.isPlain_join plain)
  have pieces := FilePattern.mapM_leading plain []
  rw [List.append_nil, FilePattern.leading] at pieces
  unfold compile FilePattern.assemble
  rw [parsed, pieces]
  exact ⟨_, rfl⟩

/-- A fault of the pattern as a whole is found behind the root, and one of a component in the component;
otherwise the pattern can be read behind every root. -/
theorem ofPattern_outcome (plain : IsPlain root) (relative : isAbsolute pattern = false) (tree : FileTree)
    (base : Place) (excluded : List String) :
    match FilePattern.parse pattern, FilePattern.assemble pattern with
    | .error fault, _ => ofPattern tree base root excluded pattern =
        .error (.pattern pattern (fault.shift (Path.join root "").length).message)
    | .ok _, .error fault => ofPattern tree base root excluded pattern = .error (.pattern pattern fault.message)
    | .ok _, .ok _ => ∃ found, ofPattern tree base root excluded pattern = .ok found := by
  by_cases empty : pattern = ""
  · subst empty
    obtain ⟨whole, read⟩ := exists_compile_join plain
    have parsed : FilePattern.parse "" = .ok [] := by decide +kernel
    have assembled : FilePattern.assemble "" = .ok [[]] := by decide +kernel
    rw [parsed, assembled]
    exact exists_ofPattern read
  · have both := FilePattern.compile_join plain relative empty
    cases parsed : FilePattern.parse pattern with
    | error fault =>
      rw [parsed] at both
      exact ofPattern_of_fault both
    | ok pieces =>
      rw [parsed] at both
      cases assembled : FilePattern.assemble pattern with
      | error fault =>
        rw [assembled] at both
        exact ofPattern_of_fault both
      | ok compiled =>
        rw [assembled] at both
        exact exists_ofPattern both

/-- Failures that name the same pattern and the same cause, near the same position of the pattern: it is
counted from the root, or from the component. -/
def SameFault (patterns : List String) (root other : String) (failure different : Failure) : Prop :=
  ∃ pattern ∈ patterns, ∃ fault : Fault,
    failure = .pattern pattern fault.message ∧ different = .pattern pattern fault.message ∨
      failure = .pattern pattern (fault.shift (Path.join root "").length).message ∧
        different = .pattern pattern (fault.shift (Path.join other "").length).message

/-- The same files, or the same fault. -/
def Alike (patterns : List String) (root other : String) :
    Except Failure (List String) → Except Failure (List String) → Prop
  | .ok files, .ok others => files = others
  | .error failure, .error different => SameFault patterns root other failure different
  | _, _ => False

/-! ### The same files below two roots -/

/-- A pattern that stays below the root it is joined to, and can be followed from there. -/
structure Local (tree : FileTree) (root : String) (place : Place) (pattern : String) : Prop where
  relative : isAbsolute pattern = false
  descends : ∀ compiled, compile pattern = .ok compiled → Descends compiled
  fits : Fits tree root place pattern

variable {tree' : FileTree} {base' place' : Place} {root' : String} {patterns : List String}

theorem ofPattern_agree (stands : Stands tree base root place) (stands' : Stands tree' base' root' place')
    (given : pattern ∈ patterns) (relative : isAbsolute pattern = false) :
    Document.Agree (SameFault patterns root root') (ofPattern tree base root [] pattern)
      (ofPattern tree' base' root' [] pattern) := by
  have first := ofPattern_outcome stands.plain relative tree base []
  have second := ofPattern_outcome stands'.plain relative tree' base' []
  cases parsed : FilePattern.parse pattern with
  | error fault =>
    rw [parsed] at first second
    rw [first, second]
    exact ⟨pattern, given, fault, .inr ⟨rfl, rfl⟩⟩
  | ok pieces =>
    cases assembled : FilePattern.assemble pattern with
    | error fault =>
      rw [parsed, assembled] at first second
      rw [first, second]
      exact ⟨pattern, given, fault, .inl ⟨rfl, rfl⟩⟩
    | ok compiled =>
      rw [parsed, assembled] at first second
      obtain ⟨found, first⟩ := first
      obtain ⟨found', second⟩ := second
      rw [first, second]
      trivial

theorem compile_of_ofPattern (plain : IsPlain root) (relative : isAbsolute pattern = false)
    {excluded found : List String} (given : ofPattern tree base root excluded pattern = .ok found) :
    ∃ compiled, compile pattern = .ok compiled := by
  have outcome := ofPattern_outcome plain relative tree base excluded
  cases parsed : FilePattern.parse pattern with
  | error fault =>
    rw [parsed] at outcome
    dsimp only at outcome
    rw [given] at outcome
    cases outcome
  | ok pieces =>
    cases assembled : FilePattern.assemble pattern with
    | error fault =>
      rw [parsed, assembled] at outcome
      dsimp only at outcome
      rw [given] at outcome
      cases outcome
    | ok compiled => exact ⟨compiled, Document.bind_eq_ok_iff.mpr ⟨pieces, parsed, assembled⟩⟩

/-- What a pattern contributes to one it contributes to the other. -/
theorem contributed_of_same (stands : Stands tree base root place) (stands' : Stands tree' base' root' place')
    (same : ∀ e, e ∈ tree.below place ↔ e ∈ tree'.below place')
    (near : ∀ pattern ∈ patterns, Local tree root place pattern)
    (near' : ∀ pattern ∈ patterns, Local tree' root' place' pattern)
    (each : ∀ pattern ∈ patterns, ∃ found, ofPattern tree' base' root' [] pattern = .ok found) {file : String}
    (contributed : Contributed tree base root patterns [] file) :
    Contributed tree' base' root' patterns [] file := by
  obtain ⟨pattern, given, found, first, inside⟩ := contributed
  obtain ⟨relative, descends, fits⟩ := near pattern given
  obtain ⟨found', second⟩ := each pattern given
  obtain ⟨compiled, read⟩ := compile_of_ofPattern stands.plain relative first
  refine ⟨pattern, given, found', second, ?_⟩
  obtain ⟨names, written, open', covers, there, unskipped⟩ :=
    (stands.mem_ofPattern_iff relative fits read (descends compiled read) first).mp inside
  refine (stands'.mem_ofPattern_iff relative (near' pattern given).fits read (descends compiled read)
    second).mpr ⟨names, written, open', covers, ?_, unskipped⟩
  obtain ⟨entry, below⟩ := stands.mem_below there
  obtain ⟨-, here⟩ := stands.sound.mem_below_iff.mp below
  obtain ⟨-, elsewhere⟩ := stands'.sound.mem_below_iff.mp ((same _).mp below)
  rwa [← FileTree.isFile_congr (here.trans elsewhere.symm)]

theorem collect_agree (stands : Stands tree base root place) (stands' : Stands tree' base' root' place')
    (relative : ∀ pattern ∈ patterns, isAbsolute pattern = false) :
    Document.Agree (SameFault patterns root root') (collect tree base root patterns [])
      (collect tree' base' root' patterns []) := by
  have agree : Document.Agree (SameFault patterns root root')
      (patterns.mapM (ofPattern tree base root [])) (patterns.mapM (ofPattern tree' base' root' [])) :=
    Document.mapM_agree fun pattern given => ofPattern_agree stands stands' given (relative pattern given)
  unfold collect
  revert agree
  cases patterns.mapM (ofPattern tree base root []) <;>
    cases patterns.mapM (ofPattern tree' base' root' []) <;> exact id

/-- Where the same files stand below two roots, patterns that stay below them collect the same files or
meet the same fault; and the same result altogether if the roots are equally long. -/
theorem collect_located (stands : Stands tree base root place) (stands' : Stands tree' base' root' place')
    (same : ∀ e, e ∈ tree.below place ↔ e ∈ tree'.below place')
    (near : ∀ pattern ∈ patterns, Local tree root place pattern)
    (near' : ∀ pattern ∈ patterns, Local tree' root' place' pattern) :
    Alike patterns root root' (collect tree base root patterns []) (collect tree' base' root' patterns []) ∧
      ((Path.join root "").length = (Path.join root' "").length →
        collect tree base root patterns [] = collect tree' base' root' patterns []) := by
  have agree := collect_agree stands stands' fun pattern given => (near pattern given).relative
  cases first : collect tree base root patterns [] with
  | error failure =>
    cases second : collect tree' base' root' patterns [] with
    | ok others => rw [first, second] at agree; exact agree.elim
    | error different =>
      rw [first, second] at agree
      refine ⟨agree, fun equal => ?_⟩
      obtain ⟨pattern, -, fault, ⟨rfl, rfl⟩ | ⟨rfl, rfl⟩⟩ := agree
      · rfl
      · rw [equal]
  | ok files =>
    cases second : collect tree' base' root' patterns [] with
    | error different => rw [first, second] at agree; exact agree.elim
    | ok others =>
      obtain ⟨each, ordered, members⟩ := collect_eq_ok_iff.mp first
      obtain ⟨each', ordered', members'⟩ := collect_eq_ok_iff.mp second
      have equal : files = others := List.Pairwise.eq_of_mem_iff ordered ordered' fun {file} => by
        rw [members, members']
        exact ⟨contributed_of_same stands stands' same near near' each',
          contributed_of_same stands' stands (fun e => (same e).symm) near' near each⟩
      exact ⟨equal, fun _ => congrArg Except.ok equal⟩

/-- A repository and a copy of it elsewhere. -/
def twinTree : FileTree :=
  ⟨[(["repo"], .directory), (["repo", "a.js"], .file []), (["srv"], .directory),
    (["srv", "r[1]"], .directory), (["srv", "r[1]", "a.js"], .file []), (["srv", "copy"], .directory),
    (["srv", "copy", "a.js"], .file [])]⟩

theorem twin_stands : Stands twinTree ["repo"] "." ["repo"] :=
  ⟨by decide +kernel, by decide, .inl (by decide), by decide, by decide⟩

theorem twin_stands_elsewhere : Stands twinTree [] "/srv/copy" ["srv", "copy"] :=
  ⟨by decide +kernel, by decide, .inr (by decide), by decide, by decide⟩

theorem local_of_compile {compiled whole : List (List Piece)} (relative : isAbsolute pattern = false)
    (read : compile pattern = .ok compiled) (descends : Descends compiled)
    (readAll : compile (Path.join root pattern) = .ok whole) (opens : isAbsolute root = false → Opens whole)
    (short : ∀ e ∈ tree.below place,
      1 + 2 * whole.length + room (inner (Text.splitOn '/' root) ++ e.1.map .name) < FileTree.maxPathSize) :
    Local tree root place pattern := by
  refine ⟨relative, fun other again => ?_, fun other again => ?_, fun other again => ?_⟩
  · rwa [← Except.ok.inj (read.symm.trans again)]
  · rwa [← Except.ok.inj (readAll.symm.trans again)]
  · rwa [← Except.ok.inj (readAll.symm.trans again)]

theorem collect_twin : Alike ["**/*.js"] "." "/srv/copy" (collect twinTree ["repo"] "." ["**/*.js"] [])
    (collect twinTree [] "/srv/copy" ["**/*.js"] []) := by
  have read : compile "**/*.js" = .ok [[.deep], [.run, .char '.', .char 'j', .char 's']] := by
    decide +kernel
  have here : compile "./**/*.js" = .ok [FilePattern.literal ".", [.deep],
      [.run, .char '.', .char 'j', .char 's']] := by decide +kernel
  have there : compile "/srv/copy/**/*.js" = .ok [FilePattern.literal "srv", FilePattern.literal "copy",
      [.deep], [.run, .char '.', .char 'j', .char 's']] := by decide +kernel
  refine (collect_located twin_stands twin_stands_elsewhere (fun e => Iff.rfl) ?_ ?_).1
  · exact List.forall_mem_singleton.mpr (local_of_compile (by decide) read (by decide) here
      (fun _ => by decide +kernel) (by decide))
  · exact List.forall_mem_singleton.mpr (local_of_compile (by decide) read (by decide) there nofun (by decide))

/-- In a directory whose name is read as a class, the same file is overlooked. -/
theorem bracketed_root_overlooked :
    (∀ e, e ∈ twinTree.below ["srv", "r[1]"] ↔ e ∈ twinTree.below ["srv", "copy"]) ∧
      twinTree.leads? ["srv"] "r[1]" = some ["srv", "r[1]"] ∧
      twinTree.leads? ["srv"] "copy" = some ["srv", "copy"] ∧
      collect twinTree ["srv"] "r[1]" ["*.js"] [] = .ok [] ∧
      collect twinTree ["srv"] "copy" ["*.js"] [] = .ok ["a.js"] :=
  ⟨fun _ => Iff.rfl, by decide, by decide, by decide +kernel, by decide +kernel⟩

end PolicyLint.Collection
