import PolicyLint.Settings
import PolicyLint.Proofs.Host.Walk
/-!
Where settings come from. The command line, the configuration file and the defaults may each give a value;
the first usable one counts. Main statement: this holds of every setting for itself, and the file counts
only when it can be read. The time limit alone is an exception: a zero on the command line hides the file.
-/
namespace PolicyLint

/-! ### Levels -/

/-- A setting: what the command line and the configuration file may say about it, and what it is else. -/
structure Setting (α : Type) where
  flag : Overrides → Option α := fun _ => none
  key : Configuration → Option α
  usable : α → Bool := fun _ => true
  /-- What a value that is given comes to in the repository with a root. -/
  placed : String → α → α := fun _ value => value
  /-- For a home directory and a root. -/
  default : String → String → α
  value : Settings → α

namespace Setting

variable {α : Type} (setting : Setting α)

/-- A level that gives nothing, or nothing of use. -/
def Lacks (given : Option α) : Prop :=
  ∀ value ∈ given, setting.usable value = false

/-- The levels of a setting, in their order. -/
inductive Comes (home root : String) (config : Configuration) (overrides : Overrides) : α → Prop where
  | flag {value : α} (given : value ∈ setting.flag overrides) (usable : setting.usable value = true) :
    Comes home root config overrides (setting.placed root value)
  | key {value : α} (unflagged : setting.Lacks (setting.flag overrides))
    (given : value ∈ setting.key config) (usable : setting.usable value = true) :
    Comes home root config overrides (setting.placed root value)
  | default (unflagged : setting.Lacks (setting.flag overrides))
    (unkeyed : setting.Lacks (setting.key config)) :
    Comes home root config overrides (setting.default home root)

/-- The usable value of the first level that has one. -/
def given (config : Configuration) (overrides : Overrides) : Option α :=
  ((setting.flag overrides).filter setting.usable).or ((setting.key config).filter setting.usable)

variable {setting} {home root : String} {config : Configuration} {overrides : Overrides}

theorem lacks_iff {given : Option α} : setting.Lacks given ↔ given.filter setting.usable = none := by
  simp [Lacks, Option.filter_eq_none_iff]

theorem given_of_usable (all : ∀ value, setting.usable value = true) :
    setting.given config overrides = (setting.flag overrides).or (setting.key config) := by
  have whole (given : Option α) : given.filter setting.usable = given := by
    cases given with
    | none => rfl
    | some value => exact Option.filter_some_pos (all value)
  rw [given, whole, whole]

/-- A setting comes from one level, and has one value. -/
theorem comes_iff {value : α} : setting.Comes home root config overrides value ↔
    value = ((setting.given config overrides).map (setting.placed root)).getD
      (setting.default home root) := by
  unfold given
  constructor
  · intro comes
    cases comes with
    | flag given usable =>
      have first := Option.filter_eq_some_iff.mpr ⟨given, usable⟩
      rw [first, Option.some_or, Option.map_some, Option.getD_some]
    | key unflagged given usable =>
      have second := Option.filter_eq_some_iff.mpr ⟨given, usable⟩
      rw [lacks_iff.mp unflagged, second, Option.none_or, Option.map_some, Option.getD_some]
    | default unflagged unkeyed =>
      rw [lacks_iff.mp unflagged, lacks_iff.mp unkeyed, Option.none_or, Option.map_none, Option.getD_none]
  · rintro rfl
    cases flagged : (setting.flag overrides).filter setting.usable with
    | some value =>
      obtain ⟨given, usable⟩ := Option.filter_eq_some_iff.mp flagged
      exact .flag given usable
    | none =>
      cases keyed : (setting.key config).filter setting.usable with
      | some value =>
        obtain ⟨given, usable⟩ := Option.filter_eq_some_iff.mp keyed
        exact .key (lacks_iff.mpr flagged) given usable
      | none => exact .default (lacks_iff.mpr flagged) (lacks_iff.mpr keyed)

end Setting

/-! ### The settings -/

inductive SettingName where
  | policy | output | toolsDir | timeout | parallelism | patterns | branch | role | tags
deriving DecidableEq, Repr

namespace SettingName

abbrev Value : SettingName → Type
  | .policy | .output | .toolsDir => String
  | .timeout | .parallelism => Nat
  | .patterns | .tags => List String
  | .branch | .role => Option String

/-- An absolute path is kept; any other starts at the root. -/
def fromRoot (root path : String) : String :=
  if Path.isAbsolute path then path else Path.join root path

/-- A branch and a role may be left open; a list is usable when it says something, a time limit when it
leaves time. -/
def setting : (name : SettingName) → Setting name.Value
  | .policy =>
    { flag := Overrides.policy, key := Configuration.policy, placed := fromRoot
      default := fun _ root => fromRoot root Settings.defaultPolicy, value := Settings.policy }
  | .output =>
    { flag := Overrides.output, key := Configuration.output
      default := fun _ _ => Settings.defaultOutput, value := Settings.output }
  | .toolsDir =>
    { key := Configuration.toolsDir, placed := fromRoot
      default := fun home _ => Settings.defaultToolsDir home, value := Settings.toolsDir }
  | .timeout =>
    { flag := Overrides.timeoutSecs, key := Configuration.timeoutSecs, usable := fun secs => 0 < secs
      default := fun _ _ => Settings.defaultTimeoutSecs, value := Settings.timeoutSecs }
  | .parallelism =>
    { key := Configuration.parallelism, default := fun _ _ => 0, value := Settings.parallelism }
  | .patterns =>
    { key := Configuration.patterns, usable := fun patterns => !patterns.isEmpty
      default := fun _ _ => Settings.defaultPatterns, value := Settings.patterns }
  | .branch =>
    { flag := fun overrides => overrides.branch.map some
      key := fun config => (config.scope.bind ScopeSettings.branch).map some
      default := fun _ _ => none, value := fun settings => settings.scope.branch }
  | .role =>
    { flag := fun overrides => overrides.role.map some
      key := fun config => (config.scope.bind ScopeSettings.role).map some
      default := fun _ _ => none, value := fun settings => settings.scope.role }
  | .tags =>
    { flag := fun overrides => some overrides.tags
      key := fun config => config.scope.map ScopeSettings.tags
      usable := fun tags => !tags.isEmpty
      default := fun _ _ => [], value := fun settings => settings.scope.tags }

theorem join_eq_fromRoot (root : String) : Path.join root = fromRoot root := by
  funext path
  unfold fromRoot
  split
  · rename_i absolute
    exact Path.join_absolute root absolute
  · rfl

/-- From wherever the root is, the path leads on. -/
theorem leads?_fromRoot (tree : FileTree) (base : Place) (root : String) {path : String}
    (relative : Path.isAbsolute path = false) : tree.leads? base (fromRoot root path) =
      (tree.leads? base root).bind fun place => tree.leads? place path := by
  simp only [← join_eq_fromRoot, FileTree.leads?_join tree base root relative, FileTree.leads?_eq _ _ path]

end SettingName

/-! ### Configuration files -/

namespace Configuration

/-- The first of the configuration files, in their order, that is there. -/
def IsFirst (host : Host) (root name : String) : Prop :=
  ∃ before behind, fileNames = before ++ name :: behind ∧ host.pathExists (Path.join root name) = true ∧
    ∀ other ∈ before, host.pathExists (Path.join root other) = false

def Absent (host : Host) (root : String) : Prop :=
  ∀ name ∈ fileNames, host.pathExists (Path.join root name) = false

def decode? (name text : String) : Option Configuration :=
  if name = tomlName then ofToml? text else ofYaml? text

/-- The first file is no text, or none of its language. -/
def Spoilt (host : Host) (root : String) : Prop :=
  ∃ name, IsFirst host root name ∧
    ∀ text, host.readText (Path.join root name) = .ok text → decode? name text = none

variable {host : Host} {root name : String}

theorem isFirst_toml (there : host.pathExists (Path.join root tomlName) = true) :
    IsFirst host root tomlName :=
  ⟨[], yamlNames, rfl, there, fun _ impossible => absurd impossible List.not_mem_nil⟩

/-- No other file counts than the first. -/
theorem IsFirst.load? (first : IsFirst host root name) :
    load? host root = (host.readText (Path.join root name)).toOption.bind (decode? name) := by
  obtain ⟨before, behind, split, there, others⟩ := first
  have found : fileNames.find? (fun name => host.pathExists (Path.join root name)) = some name :=
    List.find?_eq_some_iff_append.mpr ⟨there, before, behind, split, by simpa using others⟩
  simp only [Configuration.load?, found]
  rfl

theorem Absent.load? (absent : Absent host root) : load? host root = none := by
  have found : fileNames.find? (fun name => host.pathExists (Path.join root name)) = none :=
    List.find?_eq_none.mpr fun name given => by simp [absent name given]
  simp only [Configuration.load?, found]
  rfl

theorem Spoilt.load? (spoilt : Spoilt host root) : load? host root = none := by
  obtain ⟨name, first, spoilt⟩ := spoilt
  rw [first.load?]
  cases read : host.readText (Path.join root name) with
  | error error => rfl
  | ok text => exact spoilt text read

end Configuration

/-! ### Resolution -/

namespace Settings

variable {home root : String} {config : Configuration} {overrides : Overrides}

/-- The settings are those that have names, and the root. -/
theorem eq_of_values {settings other : Settings} (root : settings.repoRoot = other.repoRoot)
    (values : ∀ name : SettingName, name.setting.value settings = name.setting.value other) :
    settings = other := by
  have policy := values .policy
  have output := values .output
  have toolsDir := values .toolsDir
  have timeout := values .timeout
  have parallelism := values .parallelism
  have patterns := values .patterns
  have branch := values .branch
  have role := values .role
  have tags := values .tags
  obtain ⟨_, _, _, _, _, _, _, _, _, _⟩ := settings
  obtain ⟨_, _, _, _, _, _, _, _, _, _⟩ := other
  simp only [SettingName.setting] at *
  subst_vars
  rfl

theorem orIfEmpty_eq (items others : List α) :
    orIfEmpty items others = ((some items).filter fun items => !items.isEmpty).getD others := by
  cases items <;> rfl

theorem orIfEmpty_nil (items : List α) : orIfEmpty items [] = items := by
  cases items <;> rfl

theorem left_open (flag key : Option α) : ((flag.map some).or (key.map some)).getD none = flag.or key := by
  cases flag <;> cases key <;> rfl

/-- All settings but one: the first usable value, level by level. -/
theorem resolve_comes {name : SettingName} (other : name ≠ .timeout) :
    name.setting.Comes home root config overrides
      (name.setting.value (resolve home root config overrides)) := by
  rw [Setting.comes_iff]
  cases name with
  | timeout => exact absurd rfl other
  | policy | output | toolsDir | parallelism =>
    rw [Setting.given_of_usable fun _ => rfl]
    simp [SettingName.setting, resolve, SettingName.join_eq_fromRoot]
  | branch =>
    rw [Setting.given_of_usable fun _ => rfl]
    have within : (config.scope.getD .empty).branch = config.scope.bind ScopeSettings.branch := by
      cases config.scope <;> rfl
    simp only [SettingName.setting, resolve, within, Option.map_id', left_open,
      Option.orElse_eq_orElse, Option.orElse_eq_or]
  | role =>
    rw [Setting.given_of_usable fun _ => rfl]
    have within : (config.scope.getD .empty).role = config.scope.bind ScopeSettings.role := by
      cases config.scope <;> rfl
    simp only [SettingName.setting, resolve, within, Option.map_id', left_open,
      Option.orElse_eq_orElse, Option.orElse_eq_or]
  | patterns =>
    unfold Setting.given
    cases given : config.patterns with
    | none => simp [SettingName.setting, resolve, given, orIfEmpty]
    | some patterns => simp [SettingName.setting, resolve, given, orIfEmpty_eq]
  | tags =>
    unfold Setting.given
    cases given : config.scope with
    | none => simp [SettingName.setting, resolve, given, ScopeSettings.empty, orIfEmpty_eq]
    | some scope => simp [SettingName.setting, resolve, given, ← orIfEmpty_eq, orIfEmpty_nil]

/-- The time limit is what the command line or else the file gives, be it usable or not. -/
theorem resolve_timeout : (resolve home root config overrides).timeoutSecs =
    ((overrides.timeoutSecs.or config.timeoutSecs).filter (0 < ·)).getD defaultTimeoutSecs := by
  simp [resolve]

theorem resolve_timeout_pos : 0 < (resolve home root config overrides).timeoutSecs := by
  rw [resolve_timeout]
  cases given : (overrides.timeoutSecs.or config.timeoutSecs).filter (0 < ·) with
  | none => decide
  | some secs => exact of_decide_eq_true (Option.filter_eq_some_iff.mp given).2

/-- A zero on the command line, and a limit in the file that makes a difference. -/
def ZeroHides (config : Configuration) (overrides : Overrides) : Prop :=
  overrides.timeoutSecs = some 0 ∧
    ∃ secs ∈ config.timeoutSecs, 0 < secs ∧ secs ≠ defaultTimeoutSecs

theorem resolve_timeout_zero (zero : overrides.timeoutSecs = some 0) :
    (resolve home root config overrides).timeoutSecs = defaultTimeoutSecs := by
  rw [resolve_timeout, zero, Option.some_or]
  rfl

/-- The time limit comes from its levels as well, unless a zero hides the file. -/
theorem resolve_timeout_comes_iff : SettingName.timeout.setting.Comes home root config overrides
    (resolve home root config overrides).timeoutSecs ↔ ¬ ZeroHides config overrides := by
  rw [Setting.comes_iff, resolve_timeout]
  unfold ZeroHides Setting.given
  simp only [SettingName.setting]
  have usable (secs : Nat) : (some (secs + 1)).filter (fun secs => 0 < secs) = some (secs + 1) := rfl
  have unusable : (some 0).filter (fun secs => 0 < secs) = none := rfl
  match overrides.timeoutSecs with
  | none => simp
  | some (secs + 1) => simp [usable]
  | some 0 =>
    simp only [Option.some_or, unusable, Option.none_or]
    match config.timeoutSecs with
    | none => simp
    | some 0 => simp [unusable]
    | some (secs + 1) => simp [usable, eq_comm]

/-! ### The settings of a run -/

/-- Settings as their levels say. -/
structure Follows (home root : String) (config : Configuration) (overrides : Overrides)
    (settings : Settings) : Prop where
  rooted : settings.repoRoot = root
  comes : ∀ name : SettingName, name ≠ .timeout →
    name.setting.Comes home root config overrides (name.setting.value settings)
  timeout : SettingName.timeout.setting.Comes home root config overrides settings.timeoutSecs ↔
    ¬ ZeroHides config overrides
  zero : overrides.timeoutSecs = some 0 → settings.timeoutSecs = defaultTimeoutSecs
  positive : 0 < settings.timeoutSecs

theorem resolve_follows : Follows home root config overrides (resolve home root config overrides) :=
  ⟨rfl, fun _ => resolve_comes, resolve_timeout_comes_iff, resolve_timeout_zero, resolve_timeout_pos⟩

/-- Nothing else is as the levels say. -/
theorem Follows.eq_resolve {settings : Settings} (follows : Follows home root config overrides settings) :
    settings = resolve home root config overrides := by
  refine eq_of_values follows.rooted fun name => ?_
  by_cases other : name = .timeout
  · subst other
    by_cases hides : ZeroHides config overrides
    · have one : settings.timeoutSecs = defaultTimeoutSecs := follows.zero hides.1
      have same : (resolve home root config overrides).timeoutSecs = defaultTimeoutSecs :=
        resolve_timeout_zero hides.1
      exact one.trans same.symm
    · exact (Setting.comes_iff.mp (follows.timeout.mpr hides)).trans
        (Setting.comes_iff.mp (resolve_timeout_comes_iff.mpr hides)).symm
  · exact (Setting.comes_iff.mp (follows.comes name other)).trans
      (Setting.comes_iff.mp (resolve_comes other)).symm

/-- A setting asks for its own flag and its own key. -/
theorem resolve_congr {config' : Configuration} {overrides' : Overrides} (name : SettingName)
    (flag : name.setting.flag overrides = name.setting.flag overrides')
    (key : name.setting.key config = name.setting.key config') :
    name.setting.value (resolve home root config overrides) =
      name.setting.value (resolve home root config' overrides') := by
  by_cases other : name = .timeout
  · subst other
    simp only [SettingName.setting] at flag key ⊢
    rw [resolve_timeout, resolve_timeout, flag, key]
  · have given : name.setting.given config overrides = name.setting.given config' overrides' := by
      rw [Setting.given, Setting.given, flag, key]
    rw [Setting.comes_iff.mp (resolve_comes other), given]
    exact (Setting.comes_iff.mp (resolve_comes other)).symm

/-- The root of a run. -/
def rootOf (host : Host) (overrides : Overrides) : String :=
  Repository.detectRoot host (overrides.repoRoot.getD defaultStart)

/-- What a run takes its settings from. -/
structure Governed (host : Host) (overrides : Overrides) : Prop where
  follows : ∀ config, Follows host.home (rootOf host overrides) config overrides
    (resolve host.home (rootOf host overrides) config overrides)
  /-- A relative path is taken from the root, an absolute one as it is. -/
  located : ∀ root path, (Path.isAbsolute path = true → SettingName.fromRoot root path = path) ∧
    (Path.isAbsolute path = false → ∀ (tree : FileTree) (base : Place),
      tree.leads? base (SettingName.fromRoot root path) =
        (tree.leads? base root).bind fun place => tree.leads? place path)
  /-- No setting depends on what is said about another. -/
  own : ∀ config config' overrides' (name : SettingName),
    name.setting.flag overrides = name.setting.flag overrides' →
    name.setting.key config = name.setting.key config' →
    name.setting.value (resolve host.home (rootOf host overrides) config overrides) =
      name.setting.value (resolve host.home (rootOf host overrides) config' overrides')
  /-- Whoever says something else about one setting changes that one at most. -/
  single : ∀ overrides' (changed : SettingName), overrides.repoRoot = overrides'.repoRoot →
    (∀ name ≠ changed, name.setting.flag overrides = name.setting.flag overrides') →
    (of host overrides).repoRoot = (of host overrides').repoRoot ∧
      ∀ name ≠ changed, name.setting.value (of host overrides) = name.setting.value (of host overrides')
  loaded : ∀ name text config, Configuration.IsFirst host (rootOf host overrides) name →
    host.readText (Path.join (rootOf host overrides) name) = .ok text →
    Configuration.decode? name text = some config →
    of host overrides = resolve host.home (rootOf host overrides) config overrides
  /-- Without a file, or with one that cannot be read, there are the defaults. -/
  unloaded : Configuration.Absent host (rootOf host overrides) ∨
      Configuration.Spoilt host (rootOf host overrides) →
    of host overrides = resolve host.home (rootOf host overrides) .empty overrides
  spoilt : ∀ host' : Host, host.home = host'.home → rootOf host overrides = rootOf host' overrides →
    Configuration.Spoilt host (rootOf host overrides) →
    Configuration.Absent host' (rootOf host overrides) → of host overrides = of host' overrides
  /-- Behind a TOML file, good or bad, the others do not count. -/
  shadowed : ∀ host' : Host, host.home = host'.home → rootOf host overrides = rootOf host' overrides →
    host.pathExists (Path.join (rootOf host overrides) Configuration.tomlName) = true →
    host'.pathExists (Path.join (rootOf host overrides) Configuration.tomlName) = true →
    host.readText (Path.join (rootOf host overrides) Configuration.tomlName) =
      host'.readText (Path.join (rootOf host overrides) Configuration.tomlName) →
    of host overrides = of host' overrides

theorem of_eq (host : Host) (overrides : Overrides) : of host overrides =
    resolve host.home (rootOf host overrides)
      ((Configuration.load? host (rootOf host overrides)).getD .empty) overrides :=
  rfl

theorem of_loaded {host : Host} {overrides : Overrides} {config : Configuration}
    (loaded : Configuration.load? host (rootOf host overrides) = some config) :
    of host overrides = resolve host.home (rootOf host overrides) config overrides := by
  rw [of_eq, loaded, Option.getD_some]

theorem of_unloaded {host : Host} {overrides : Overrides}
    (absent : Configuration.load? host (rootOf host overrides) = none) :
    of host overrides = resolve host.home (rootOf host overrides) .empty overrides := by
  rw [of_eq, absent, Option.getD_none]

/-- What is loaded is all that a run takes from the files below its root. -/
theorem of_congr {host host' : Host} {overrides : Overrides} (home : host.home = host'.home)
    (root : rootOf host overrides = rootOf host' overrides)
    (loaded : Configuration.load? host (rootOf host overrides) =
      Configuration.load? host' (rootOf host overrides)) : of host overrides = of host' overrides := by
  rw [of_eq, of_eq, loaded, home, root]

/-- Each setting comes from the first of the command line, the configuration file and the defaults that
gives a usable value, whatever is said about the others; for the time limit this is so unless the command
line gives zero, which is replaced by the default whatever the file says. -/
theorem of_governed (host : Host) (overrides : Overrides) : Governed host overrides where
  follows _ := resolve_follows
  located root path := by
    refine ⟨fun absolute => if_pos absolute, fun relative tree base => ?_⟩
    exact SettingName.leads?_fromRoot tree base root relative
  own _ _ _ name flag key := resolve_congr name flag key
  single overrides' changed start same := by
    have root : rootOf host overrides = rootOf host overrides' := by rw [rootOf, rootOf, start]
    rw [of_eq, of_eq, ← root]
    exact ⟨rfl, fun name other => resolve_congr name (same name other) rfl⟩
  loaded _ _ _ first read decoded := of_loaded (by rw [first.load?, read]; exact decoded)
  unloaded unread := by
    rcases unread with absent | spoilt
    · exact of_unloaded absent.load?
    · exact of_unloaded spoilt.load?
  spoilt host' home root spoilt absent :=
    of_congr home root (spoilt.load?.trans absent.load?.symm)
  shadowed host' home root there there' same := by
    have one := Configuration.isFirst_toml there
    have other := Configuration.isFirst_toml there'
    exact of_congr home root (by rw [one.load?, other.load?, same])

/-- A repository with a time limit of half a minute. -/
def limitedHost : Host :=
  ⟨⟨[(["repo"], .directory),
    (["repo", "rulegate.toml"], .file (Text.Utf8.encode "timeout_secs = 30\n"))]⟩,
    ["repo"], [], "/home", 0, [], []⟩

def limited : Configuration := ⟨none, none, none, some 30, none, none, none⟩

def hurried : Overrides := ⟨none, none, none, some 0, none, none, []⟩

/-- A zero hides the limit in the file, and the default takes its place. -/
theorem zero_hides_limit :
    Configuration.load? limitedHost (rootOf limitedHost hurried) = some limited ∧
    (of limitedHost hurried).timeoutSecs = 120 ∧
    ¬ SettingName.timeout.setting.Comes limitedHost.home (rootOf limitedHost hurried) limited hurried
      (of limitedHost hurried).timeoutSecs := by
  have loaded : Configuration.load? limitedHost (rootOf limitedHost hurried) = some limited := by
    decide +kernel
  rw [of_loaded loaded, resolve_timeout_comes_iff]
  exact ⟨loaded, resolve_timeout_zero rfl, not_not_intro ⟨rfl, 30, rfl, by decide, by decide⟩⟩

/-- A repository with files in its root. -/
def repository (files : List (String × String)) : Host :=
  ⟨⟨(["repo"], .directory) :: files.map fun file => (["repo", file.1], .file (Text.Utf8.encode file.2))⟩,
    ["repo"], [], "/home", 0, [], []⟩

/-- A file with a limit, the same with another one behind it, and one that breaks off. -/
theorem files_governed :
    let limiting := repository [("rulegate.toml", "timeout_secs = 30\n")]
    let crowded := repository
      [("rulegate.toml", "timeout_secs = 30\n"), ("rulegate.yaml", "timeout_secs: 40\n")]
    let broken := repository [("rulegate.toml", "timeout_secs = ")]
    of limiting .empty = resolve "/home" "." limited .empty ∧
    SettingName.timeout.setting.Comes "/home" "." limited .empty (of limiting .empty).timeoutSecs ∧
    of crowded .empty = of limiting .empty ∧
    of broken .empty = of (repository []) .empty ∧
    (of limiting hurried).policy = (of limiting .empty).policy ∧
    SettingName.fromRoot "." "/policy.json" = "/policy.json" := by
  intro limiting crowded broken
  have root : rootOf limiting .empty = "." := by decide +kernel
  have crowdedRoot : rootOf crowded .empty = "." := by decide +kernel
  have brokenRoot : rootOf broken .empty = "." := by decide +kernel
  have emptyRoot : rootOf (repository []) .empty = "." := by decide +kernel
  have there : limiting.pathExists (Path.join "." Configuration.tomlName) = true := by decide +kernel
  have text : limiting.readText (Path.join "." Configuration.tomlName) = .ok "timeout_secs = 30\n" := by
    decide +kernel
  have loaded : of limiting .empty = resolve "/home" "." limited .empty := by
    have governed := (of_governed limiting .empty).loaded Configuration.tomlName "timeout_secs = 30\n" limited
    rw [root] at governed
    exact governed (Configuration.isFirst_toml there) text (by decide +kernel)
  have unhidden : ¬ ZeroHides limited .empty := fun hides => absurd hides.1 (by decide)
  have followed := (of_governed limiting .empty).follows limited
  have shadowed := (of_governed crowded .empty).shadowed limiting rfl (crowdedRoot.trans root.symm)
  have spoilt : Configuration.Spoilt broken "." := by
    refine ⟨Configuration.tomlName, Configuration.isFirst_toml (by decide +kernel), fun text read => ?_⟩
    have given : broken.readText (Path.join "." Configuration.tomlName) = .ok "timeout_secs = " := by
      decide +kernel
    obtain rfl := Except.ok.inj (given.symm.trans read)
    decide +kernel
  have absent : Configuration.Absent (repository []) "." := by
    unfold Configuration.Absent
    decide +kernel
  have unspoilt := (of_governed broken .empty).spoilt (repository []) rfl (brokenRoot.trans emptyRoot.symm)
  rw [root] at followed
  rw [crowdedRoot] at shadowed
  rw [brokenRoot] at unspoilt
  refine ⟨loaded, ?_, shadowed (by decide +kernel) there (by decide +kernel), unspoilt spoilt absent, ?_,
    ((of_governed limiting .empty).located "." "/policy.json").1 (by decide)⟩
  · rw [loaded]
    exact followed.timeout.mpr unhidden
  · have single := (of_governed limiting hurried).single .empty .timeout rfl fun name other => by
      cases name <;> first | rfl | exact absurd rfl other
    simpa only [SettingName.setting] using single.2 .policy nofun

end Settings
end PolicyLint
