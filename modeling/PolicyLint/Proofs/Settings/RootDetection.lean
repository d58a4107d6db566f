import PolicyLint.Settings
import PolicyLint.Proofs.Host.Walk
import PolicyLint.Proofs.Path.Parent
/-!
The root of a repository. The search for it tries a path and its parents, one after the other, until a
path has none; it stops at the first that holds a marker. Main statement: as long as the parents that are
tried are the directories above the start, the first with a marker is the nearest of them.
-/
namespace PolicyLint.Repository

open PolicyLint.Path (Component components parent? IsParent)

/-! ### Markers -/

/-- A place at which a configuration file, or the history of a repository, stands. -/
def Holds (tree : FileTree) (place : Place) : Prop :=
  ∃ name ∈ markers, (tree.get? (place ++ [name])).isSome = true

instance (tree : FileTree) (place : Place) : Decidable (Holds tree place) :=
  inferInstanceAs (Decidable (∃ name ∈ markers, _))

/-- The longest name of a marker, with a slash before it. -/
def markerRoom : Nat := 14

theorem marker_isName : ∀ name ∈ markers, FileTree.IsName name ∧ name.utf8ByteSize < markerRoom := by
  decide

variable {host : Host} {tree : FileTree} {trunk : List Component} {foot : Place}

theorem Holds.isDirectory (sound : tree.WellFormed) {place : Place}
    (holds : Holds tree place) : tree.isDirectory place = true := by
  obtain ⟨name, -, there⟩ := holds
  exact sound.isDirectory_before there (List.cons_ne_nil name [])

/-- A path to names behind a place leads there when a marker stands there. -/
theorem leads?_of_holds (sound : host.tree.WellFormed) {path : String} {names : List String}
    (split : components path = trunk ++ names.map .name)
    (walked : host.tree.walk host.directory trunk = some foot)
    (holds : Holds host.tree (foot ++ names)) :
    host.tree.leads? host.directory path = some (foot ++ names) := by
  have there := FileTree.isDirectory_iff.mp (holds.isDirectory sound)
  rw [FileTree.leads?, split, FileTree.walk_append, walked, Option.bind_some]
  exact sound.walk_names (by rw [there]; rfl)

theorem isRoot_iff (sound : host.tree.WellFormed) {path : String}
    (short : path.utf8ByteSize + markerRoom < FileTree.maxPathSize) {names : List String}
    (split : components path = trunk ++ names.map .name)
    (walked : host.tree.walk host.directory trunk = some foot) :
    isRoot host path = true ↔ Holds host.tree (foot ++ names) := by
  have room : ∀ name ∈ markers, (Path.join path name).utf8ByteSize < FileTree.maxPathSize := by
    intro name marker
    obtain ⟨proper, small⟩ := marker_isName name marker
    have relative := Path.isAbsolute_of_free proper.2.2.2.1
    have := Path.size_join_le path relative
    omega
  have there : ∀ {place : Place}, host.tree.leads? host.directory path = some place →
      (isRoot host path = true ↔ Holds host.tree place) := by
    intro place leads
    rw [isRoot, List.any_eq_true, Holds]
    refine exists_congr fun name => and_congr_right fun marker => ?_
    exact sound.pathExists_join_iff (marker_isName name marker).1 leads (room name marker)
  constructor
  · intro root
    obtain ⟨name, marker, found⟩ := List.any_eq_true.mp root
    obtain ⟨place, resolved, -⟩ := FileTree.pathExists_iff.mp found
    obtain ⟨proper, -⟩ := marker_isName name marker
    have relative := Path.isAbsolute_of_free proper.2.2.2.1
    have behind := FileTree.leads?_of_resolve resolved
    rw [FileTree.leads?_join _ _ _ relative] at behind
    obtain ⟨middle, leads, -⟩ := Option.bind_eq_some_iff.mp behind
    have whole := leads
    rw [FileTree.leads?, split, FileTree.walk_append, walked, Option.bind_some] at whole
    rw [← FileTree.walk_names_eq whole]
    exact (there leads).mp root
  · intro holds
    exact (there (leads?_of_holds sound split walked holds)).mpr holds

/-! ### Climbing -/

/-- A path, its parent, the parent of that one, and so on until a path has none. -/
inductive Climb : String → List String → Prop
  | top : parent? path = none → Climb path [path]
  | up : parent? path = some parent → Climb parent rest → Climb path (path :: rest)

theorem ancestorsWithin_climb {steps : Nat} {path : String} (enough : path.length < steps) :
    Climb path (ancestorsWithin steps path) := by
  induction steps generalizing path with
  | zero => exact absurd enough (Nat.not_lt_zero _)
  | succ steps ih =>
    unfold ancestorsWithin
    rcases Path.parent?_cases path with ⟨topmost, -⟩ | ⟨parent, above, isParent, -⟩
    · rw [topmost]
      exact .top topmost
    · rw [above]
      exact .up above (ih (Nat.lt_of_lt_of_le isParent.shorter (Nat.le_of_lt_succ enough)))

theorem ancestors_climb (path : String) : Climb path (ancestors path) :=
  ancestorsWithin_climb (Nat.lt_succ_self _)

/-- What a climb visits behind a path that ends in a name is the climb from a path without that name. -/
theorem Climb.of_name {path : String} {visited : List String} (climb : Climb path visited)
    {above : List Component} {name : String} (split : components path = above ++ [.name name]) :
    ∃ parent rest, visited = path :: rest ∧ IsParent parent path ∧ components parent = above ∧
      Climb parent rest := by
  rcases Path.parent?_cases path with ⟨-, bare | bare⟩ | ⟨parent, found, isParent, -⟩
  · rw [bare] at split
    simp at split
  · have last := congrArg List.getLast? (bare.symm.trans split)
    simp at last
  · cases climb with
    | top topmost => rw [topmost] at found; contradiction
    | up found' climb =>
      obtain rfl := Option.some.inj (found.symm.trans found')
      exact ⟨parent, _, rfl, isParent, by rw [isParent.components, split, List.dropLast_concat], climb⟩

/-- The nearest of some directories, one inside the other, that holds a marker. -/
def IsFirst (tree : FileTree) (foot : Place) (names above : List String) : Prop :=
  above <+: names ∧ Holds tree (foot ++ above) ∧
    ∀ other, other <+: names → Holds tree (foot ++ other) → other <+: above

theorem isFirst_self {names : List String} (holds : Holds tree (foot ++ names)) :
    IsFirst tree foot names names :=
  ⟨List.prefix_refl _, holds, fun _ inside _ => inside⟩

/-- Where all the names lead to no marker, fewer names lead to those there are. -/
theorem leads_of_unmarked {names : List String} {name : String}
    (unmarked : ¬ Holds tree (foot ++ (names ++ [name]))) {other : List String}
    (inside : other <+: names ++ [name]) (marked : Holds tree (foot ++ other)) : other <+: names := by
  rcases List.prefix_concat_iff.mp inside with rfl | inside
  · exact absurd marked unmarked
  · exact inside

theorem IsFirst.concat {names above : List String} {name : String}
    (unmarked : ¬ Holds tree (foot ++ (names ++ [name]))) (first : IsFirst tree foot names above) :
    IsFirst tree foot (names ++ [name]) above :=
  ⟨first.1.trans (List.prefix_append _ _), first.2.1, fun other within marked =>
    first.2.2 other (leads_of_unmarked unmarked within marked) marked⟩

/-- Climbing from names to what they stand behind, a search stops at the nearest marker, or it gets to
the bottom. -/
theorem find?_climb (sound : host.tree.WellFormed)
    (walked : host.tree.walk host.directory trunk = some foot) {names : List String} {path : String}
    {visited : List String} (climb : Climb path visited)
    (short : path.utf8ByteSize + markerRoom < FileTree.maxPathSize)
    (split : components path = trunk ++ names.map .name) :
    (∃ found above, visited.find? (isRoot host) = some found ∧ IsFirst host.tree foot names above ∧
      host.tree.leads? host.directory found = some (foot ++ above)) ∨
    (∀ other, other <+: names → ¬ Holds host.tree (foot ++ other)) ∧
      ∃ bottom rest, components bottom = trunk ∧ Climb bottom (bottom :: rest) ∧
        bottom.utf8ByteSize ≤ path.utf8ByteSize ∧
        visited.find? (isRoot host) = rest.find? (isRoot host) := by
  induction names using List.reverseRecOn generalizing path visited with
  | nil =>
    have visits : ∃ rest, visited = path :: rest := by cases climb <;> exact ⟨_, rfl⟩
    obtain ⟨rest, rfl⟩ := visits
    have here : _ ↔ Holds host.tree (foot ++ []) := isRoot_iff sound short split walked
    by_cases holds : Holds host.tree (foot ++ [])
    · exact .inl ⟨path, [], List.find?_cons_of_pos (here.mpr holds), isFirst_self holds,
        leads?_of_holds sound split walked holds⟩
    · refine .inr ⟨fun other inside => List.prefix_nil.mp inside ▸ holds, path, rest, by simpa using split,
        climb, Nat.le_refl _, List.find?_cons_of_neg (mt here.mp holds)⟩
  | append_singleton names name ih =>
    rw [List.map_append, List.map_singleton, ← List.append_assoc] at split
    obtain ⟨parent, rest, rfl, isParent, upper, climb⟩ := climb.of_name split
    have split' : components path = trunk ++ (names ++ [name]).map .name := by simp [split]
    have here := isRoot_iff sound short split' walked
    by_cases holds : Holds host.tree (foot ++ (names ++ [name]))
    · exact .inl ⟨path, names ++ [name], List.find?_cons_of_pos (here.mpr holds), isFirst_self holds,
        leads?_of_holds sound split' walked holds⟩
    · rw [List.find?_cons_of_neg (mt here.mp holds)]
      have size := isParent.size
      rcases ih climb (by omega) upper with ⟨found, above, search, first, leads⟩ | ⟨unmarked, bottom⟩
      · exact .inl ⟨found, above, search, first.concat holds, leads⟩
      · obtain ⟨bottom, rest, components, climb, smaller, search⟩ := bottom
        exact .inr ⟨fun other within marked => unmarked other (leads_of_unmarked holds within marked) marked,
          bottom, rest, components, climb, Nat.le_trans smaller size, search⟩

/-! ### Detection -/

/-- What is found for a start that leads to a place: the nearest directory, from there up to the root of
the file system, that holds a marker, or else the start. -/
def IsNearest (host : Host) (place : Place) (start found : String) : Prop :=
  (∃ nearest, host.tree.leads? host.directory found = some nearest ∧ nearest <+: place ∧
    Holds host.tree nearest ∧ ∀ other, other <+: place → Holds host.tree other → other <+: nearest) ∨
  (∀ other, other <+: place → ¬ Holds host.tree other) ∧ found = start

/-- A place on the way to names behind a foot stands above the foot, or behind it. -/
theorem upper_or_lower {names other : List String} (within : other <+: foot ++ names) :
    other <+: foot ∨ ∃ lower, lower <+: names ∧ other = foot ++ lower := by
  rcases List.prefix_or_prefix_of_prefix within (List.prefix_append foot names) with upper | ⟨lower, rfl⟩
  · exact .inl upper
  · exact .inr ⟨lower, (List.prefix_append_right_inj foot).mp within, rfl⟩

theorem IsFirst.nearest {names above : List String} (first : IsFirst host.tree foot names above)
    {start found : String} (leads : host.tree.leads? host.directory found = some (foot ++ above)) :
    IsNearest host (foot ++ names) start found := by
  obtain ⟨inside, marked, nearest⟩ := first
  refine .inl ⟨foot ++ above, leads, (List.prefix_append_right_inj foot).mpr inside, marked, ?_⟩
  intro other within holds
  rcases upper_or_lower within with upper | ⟨lower, behind, rfl⟩
  · exact upper.trans (List.prefix_append foot above)
  · exact (List.prefix_append_right_inj foot).mpr (nearest lower behind holds)

/-- Where no marker stands from the start on down to the bottom, and none farther up, the start is found. -/
theorem isNearest_start {names : List String} {start : String}
    (unmarked : ∀ other, other <+: names → ¬ Holds host.tree (foot ++ other))
    (nowhere : ∀ other, other <+: foot → Holds host.tree other → other = foot) :
    IsNearest host (foot ++ names) start start := by
  refine .inr ⟨fun other within holds => ?_, rfl⟩
  rcases upper_or_lower within with upper | ⟨lower, behind, rfl⟩
  · obtain rfl := nowhere other upper holds
    exact unmarked [] List.nil_prefix (by rwa [List.append_nil])
  · exact unmarked lower behind holds

/-- A climb ends where a path has no parent. -/
theorem Climb.eq_nil {path : String} {rest : List String} (climb : Climb path (path :: rest))
    (bare : components path = [] ∨ components path = [.root]) : rest = [] := by
  cases climb with
  | top => rfl
  | up above climb =>
    rcases Path.parent?_cases path with ⟨topmost, -⟩ | ⟨parent, -, -, other⟩
    · rw [topmost] at above
      contradiction
    · exact absurd bare other

/-- From the current directory a climb goes to the empty path, and no farther. -/
theorem Climb.of_current {path : String} {rest : List String} (climb : Climb path (path :: rest))
    (current : components path = [.current]) : ∃ parent, rest = [parent] ∧ components parent = [] ∧
      parent.utf8ByteSize ≤ path.utf8ByteSize := by
  rcases Path.parent?_cases path with ⟨-, bare⟩ | ⟨parent, found, isParent, -⟩
  · rw [current] at bare
    simp at bare
  · have empty : components parent = [] := by rw [isParent.components, current]; rfl
    cases climb with
    | top topmost => rw [topmost] at found; contradiction
    | up found' climb =>
      obtain rfl := Option.some.inj (found.symm.trans found')
      have visits : ∃ more, rest = parent :: more := by cases climb <;> exact ⟨_, rfl⟩
      obtain ⟨more, rfl⟩ := visits
      exact ⟨parent, by rw [climb.eq_nil (.inl empty)], empty, isParent.size⟩

/-- A search finds the nearest marker above its start when the paths it tries are the directories above
the start, as far as it has to look: behind the names that the start ends in, there is a marker, or the
root of the file system, or the working directory with nothing farther up. -/
theorem detectRoot_nearest (host : Host) (start : String) :
    (∃ visited, Climb start visited ∧
      detectRoot host start = (visited.find? (isRoot host)).getD start) ∧
    ∀ (trunk : List Component) (names : List String) (foot : Place), host.tree.WellFormed →
      start.utf8ByteSize + markerRoom < FileTree.maxPathSize →
      components start = trunk ++ names.map .name →
      host.tree.walk host.directory trunk = some foot →
      ((∃ above, above <+: names ∧ Holds host.tree (foot ++ above)) ∨ trunk = [.root] ∨
        (trunk = [] ∨ trunk = [.current]) ∧
          ∀ other, other <+: foot → Holds host.tree other → other = foot) →
      IsNearest host (foot ++ names) start (detectRoot host start) := by
  refine ⟨⟨_, ancestors_climb start, rfl⟩, ?_⟩
  intro trunk names foot sound short split walked reach
  unfold detectRoot
  rcases find?_climb sound walked (ancestors_climb start) short split with
    ⟨found, above, search, first, leads⟩ | ⟨missing, bottom, rest, ends, climb, smaller, search⟩
  · rw [search]
    exact first.nearest leads
  · rcases reach with ⟨above, inside, holds⟩ | rfl | ⟨near, nowhere⟩
    · exact absurd holds (missing above inside)
    · obtain rfl : foot = [] := (Option.some.inj walked).symm
      rw [search, climb.eq_nil (.inr ends)]
      refine isNearest_start missing fun other within _ => List.prefix_nil.mp within
    · have unmarked : ¬ Holds host.tree foot := by simpa using missing [] List.nil_prefix
      have nothing : rest.find? (isRoot host) = .none := by
        rcases near with rfl | rfl
        · rw [climb.eq_nil (.inl ends), List.find?_nil]
        · obtain ⟨parent, rfl, empty, size⟩ := climb.of_current ends
          have split : components parent = [] ++ ([] : List String).map .name := empty
          have here := isRoot_iff sound (by omega) split walked
          rw [List.append_nil] at here
          rw [List.find?_cons_of_neg (mt here.mp unmarked), List.find?_nil]
      rw [search, nothing]
      exact isNearest_start missing nowhere

/-- A repository in a home directory. -/
def sampleTree : FileTree :=
  ⟨[(["home"], .directory), (["home", "repo"], .directory), (["home", "repo", ".git"], .directory),
    (["home", "repo", "src"], .directory), (["home", "repo", "src", "lib"], .directory)]⟩

def sampleHost (directory : Place) : Host :=
  ⟨sampleTree, directory, [], "/home", 0, [], []⟩

/-- A start that goes up first, and then down into the repository. -/
theorem detectRoot_repository : IsNearest (sampleHost ["home", "repo"]) ["home", "repo", "src", "lib"]
    "../repo/src/lib" (detectRoot (sampleHost ["home", "repo"]) "../repo/src/lib") :=
  (detectRoot_nearest (sampleHost ["home", "repo"]) "../repo/src/lib").2 [.parent] ["repo", "src", "lib"]
    ["home"] (by decide +kernel) (by decide) (by decide +kernel) (by decide)
    (.inl ⟨["repo"], by decide, by decide⟩)

/-- From a directory in the repository, the current directory leads nowhere up; and from a path that ends
in two dots, the search goes down. -/
theorem detectRoot_misses :
    ¬ IsNearest (sampleHost ["home", "repo", "src"]) ["home", "repo", "src"] "."
      (detectRoot (sampleHost ["home", "repo", "src"]) ".") ∧
    ¬ IsNearest (sampleHost ["home"]) ["home"] "repo/.." (detectRoot (sampleHost ["home"]) "repo/..") := by
  constructor
  · have stays : detectRoot (sampleHost ["home", "repo", "src"]) "." = "." := by decide +kernel
    rw [stays]
    rintro (⟨nearest, leads, -, holds, -⟩ | ⟨unmarked, -⟩)
    · have here : (sampleHost ["home", "repo", "src"]).tree.leads? ["home", "repo", "src"] "." =
          some ["home", "repo", "src"] := by decide +kernel
      obtain rfl := Option.some.inj (here.symm.trans leads)
      exact absurd holds (by decide)
    · exact unmarked ["home", "repo"] (by decide) (by decide)
  · have down : detectRoot (sampleHost ["home"]) "repo/.." = "repo" := by decide +kernel
    rw [down]
    rintro (⟨nearest, leads, inside, -, -⟩ | ⟨-, same⟩)
    · have there : (sampleHost ["home"]).tree.leads? ["home"] "repo" = some ["home", "repo"] := by
        decide +kernel
      obtain rfl := Option.some.inj (there.symm.trans leads)
      exact absurd inside (by decide)
    · exact absurd same (by decide)

end PolicyLint.Repository
