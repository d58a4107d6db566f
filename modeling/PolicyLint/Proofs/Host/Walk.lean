import PolicyLint.Host.Tree
import PolicyLint.Proofs.Path.Component
/-!
Where paths lead in a file tree. A tree is well formed when its entries have names and stand in
directories. Walking the components of a path needs a directory before every step; a path that can be
looked up at all leads where its components do, and one that leads to a directory can be looked up when
it is short enough.
-/
namespace PolicyLint.FileTree

open PolicyLint.Path (Component components course inner isAbsolute)

/-! ### Well-formed trees -/

/-- What an entry of a directory can be called. -/
def IsName (name : String) : Prop :=
  name ≠ "" ∧ name ≠ "." ∧ name ≠ ".." ∧ '/' ∉ name.toList ∧ '\x00' ∉ name.toList ∧
    name.utf8ByteSize ≤ maxNameSize

instance (name : String) : Decidable (IsName name) :=
  inferInstanceAs (Decidable (_ ∧ _))

/-- Every entry has names, a place of its own, and a directory to stand in. -/
structure WellFormed (tree : FileTree) : Prop where
  named : ∀ e ∈ tree.entries, ∀ name ∈ e.1, IsName name
  distinct : (tree.entries.map Prod.fst).Nodup
  inside : ∀ e ∈ tree.entries, tree.isDirectory e.1.dropLast = true

instance (tree : FileTree) : Decidable tree.WellFormed :=
  decidable_of_iff ((∀ e ∈ tree.entries, ∀ name ∈ e.1, IsName name) ∧
      (tree.entries.map Prod.fst).Nodup ∧ ∀ e ∈ tree.entries, tree.isDirectory e.1.dropLast = true)
    ⟨fun ⟨named, distinct, inside⟩ => ⟨named, distinct, inside⟩,
      fun sound => ⟨sound.named, sound.distinct, sound.inside⟩⟩

variable {tree : FileTree} {place : Place}

@[simp] theorem get?_root (tree : FileTree) : tree.get? [] = some .directory :=
  if_pos rfl

theorem isDirectory_iff : tree.isDirectory place = true ↔ tree.get? place = some .directory := by
  unfold isDirectory
  split <;> simp_all

theorem isFile_iff : tree.isFile place = true ↔
    ∃ entry, tree.get? place = some entry ∧ tree.isDirectory place = false := by
  unfold isFile isDirectory
  cases tree.get? place with
  | none => simp
  | some entry => cases entry <;> simp

theorem there_of_isFile (file : tree.isFile place = true) : (tree.get? place).isSome = true := by
  obtain ⟨entry, there, -⟩ := isFile_iff.mp file
  rw [there]
  rfl

theorem mem_entries_of_get? {entry : Entry} (below : place ≠ []) (there : tree.get? place = some entry) :
    (place, entry) ∈ tree.entries := by
  rw [get?, if_neg below] at there
  obtain ⟨before, behind, split, -⟩ := List.lookup_eq_some_iff.mp there
  rw [split]
  exact List.mem_append_right _ List.mem_cons_self

namespace WellFormed

theorem get?_of_mem (sound : tree.WellFormed) {entry : Entry} (below : place ≠ [])
    (member : (place, entry) ∈ tree.entries) : tree.get? place = some entry := by
  obtain ⟨before, behind, split⟩ := List.append_of_mem member
  rw [get?, if_neg below]
  refine List.lookup_eq_some_iff.mpr ⟨before, behind, split, fun other earlier => ?_⟩
  have distinct := sound.distinct
  rw [split, List.map_append, List.map_cons] at distinct
  have apart := (List.nodup_append.mp distinct).2.2 other.1 (List.mem_map_of_mem earlier) place
    List.mem_cons_self
  exact bne_iff_ne.mpr apart.symm

theorem isName_of_there (sound : tree.WellFormed) (there : (tree.get? place).isSome = true)
    {name : String} (member : name ∈ place) : IsName name := by
  obtain ⟨entry, there⟩ := Option.isSome_iff_exists.mp there
  exact sound.named _ (mem_entries_of_get? (List.ne_nil_of_mem member) there) name member

theorem isDirectory_above (sound : tree.WellFormed) (there : (tree.get? place).isSome = true) :
    tree.isDirectory place.dropLast = true := by
  by_cases root : place = []
  · subst root
    rfl
  · obtain ⟨entry, there⟩ := Option.isSome_iff_exists.mp there
    exact sound.inside _ (mem_entries_of_get? root there)

theorem isDirectory_before (sound : tree.WellFormed) {names : List String}
    (there : (tree.get? (place ++ names)).isSome = true) (nonempty : names ≠ []) :
    tree.isDirectory place = true := by
  induction names using List.reverseRecOn with
  | nil => exact absurd rfl nonempty
  | append_singleton names name ih =>
    have above := sound.isDirectory_above there
    rw [← List.append_assoc, List.dropLast_concat] at above
    by_cases more : names = []
    · rwa [more, List.append_nil] at above
    · exact ih (by rw [isDirectory_iff.mp above]; rfl) more

theorem mem_below_iff (sound : tree.WellFormed) {names : Place} {entry : Entry} :
    (names, entry) ∈ tree.below place ↔ names ≠ [] ∧ tree.get? (place ++ names) = some entry := by
  unfold below
  rw [List.mem_filterMap]
  constructor
  · rintro ⟨⟨full, other⟩, member, given⟩
    split at given
    · rename_i inside
      obtain ⟨rfl, rfl⟩ := Prod.mk.inj (Option.some.inj given)
      obtain ⟨leads, longer⟩ : place <+: full ∧ place.length < full.length := by simpa using inside
      obtain ⟨rest, rfl⟩ := leads
      rw [List.drop_left]
      have more : rest ≠ [] := by
        rintro rfl
        simp at longer
      exact ⟨more, sound.get?_of_mem (List.append_ne_nil_of_right_ne_nil _ more) member⟩
    · contradiction
  · rintro ⟨nonempty, there⟩
    refine ⟨(place ++ names, entry),
      mem_entries_of_get? (List.append_ne_nil_of_right_ne_nil _ nonempty) there, ?_⟩
    have longer : 0 < names.length := List.length_pos_iff.mpr nonempty
    simp [longer]

end WellFormed

/-! ### Walking -/

/-- One component further. -/
def onward (tree : FileTree) (place : Place) : Component → Option Place
  | .root => some []
  | .current => some place
  | .parent => if tree.isDirectory place then some place.dropLast else none
  | .name text => if tree.isDirectory place then some (place ++ [text]) else none

theorem onward_parent (tree : FileTree) (place : Place) : tree.onward place .parent =
    if tree.isDirectory place then some place.dropLast else none :=
  rfl

theorem onward_name (tree : FileTree) (place : Place) (text : String) : tree.onward place (.name text) =
    if tree.isDirectory place then some (place ++ [text]) else none :=
  rfl

def walk (tree : FileTree) (place : Place) (components : List Component) : Option Place :=
  components.foldlM tree.onward place

/-- Where a path leads from a directory, be it ever so long; the empty path stays there. -/
def leads? (tree : FileTree) (base : Place) (path : String) : Option Place :=
  tree.walk base (components path)

@[simp] theorem walk_nil (tree : FileTree) (place : Place) : tree.walk place [] = some place :=
  rfl

theorem walk_cons (tree : FileTree) (place : Place) (c : Component) (rest : List Component) :
    tree.walk place (c :: rest) = (tree.onward place c).bind fun next => tree.walk next rest :=
  List.foldlM_cons ..

theorem walk_append (tree : FileTree) (place : Place) (before behind : List Component) :
    tree.walk place (before ++ behind) =
      (tree.walk place before).bind fun next => tree.walk next behind :=
  List.foldlM_append

theorem walk_course (tree : FileTree) (place : Place) (steps : List Component) :
    tree.walk place (steps.filter (· ≠ .current)) = tree.walk place steps := by
  induction steps generalizing place with
  | nil => rfl
  | cons c steps ih =>
    by_cases current : c = .current
    · subst current
      simpa [walk_cons, onward] using ih place
    · rw [List.filter_cons_of_pos (by simpa using current), walk_cons, walk_cons]
      exact congrArg _ (funext ih)

theorem leads?_eq (tree : FileTree) (base : Place) (path : String) :
    tree.leads? base path = tree.walk base (course path) :=
  (walk_course tree base (components path)).symm

theorem walk_names_eq {names : List String} {next : Place}
    (walked : tree.walk place (names.map .name) = some next) : next = place ++ names := by
  induction names generalizing place with
  | nil => simpa using walked.symm
  | cons name names ih =>
    rw [List.map_cons, walk_cons] at walked
    obtain ⟨middle, first, later⟩ := Option.bind_eq_some_iff.mp walked
    rw [onward_name] at first
    split at first
    · obtain rfl := Option.some.inj first
      rw [ih later, List.append_assoc, List.singleton_append]
    · contradiction

theorem WellFormed.walk_names (sound : tree.WellFormed) {names : List String}
    (there : (tree.get? (place ++ names)).isSome = true) :
    tree.walk place (names.map .name) = some (place ++ names) := by
  induction names generalizing place with
  | nil => simp
  | cons name names ih =>
    have directory := sound.isDirectory_before there (List.cons_ne_nil _ _)
    rw [List.append_cons] at there ⊢
    rw [List.map_cons, walk_cons, onward_name, if_pos directory, Option.bind_some, ih there]

/-! ### Looking up -/

theorem step_eq_ok_iff {piece : String} {next : Place} : tree.step place piece = .ok next ↔
    tree.isDirectory place = true ∧
      if piece = "" ∨ piece = "." then next = place
      else if piece = ".." then next = place.dropLast
      else piece.utf8ByteSize ≤ maxNameSize ∧ next = place ++ [piece] := by
  unfold step isDirectory
  split
  · simp_all
  · simp_all
  · simp_all
  · rename_i directory
    simp only [directory, true_and]
    split
    · exact ⟨fun same => (Except.ok.inj same).symm, fun same => congrArg _ same.symm⟩
    · split
      · exact ⟨fun same => (Except.ok.inj same).symm, fun same => congrArg _ same.symm⟩
      · split
        · rename_i long
          exact iff_of_false nofun fun both => absurd both.1 (Nat.not_le.mpr long)
        · rename_i short
          exact ⟨fun same => ⟨Nat.not_lt.mp short, (Except.ok.inj same).symm⟩,
            fun both => congrArg _ both.2.symm⟩

/-- Pieces that are looked up one after the other are walked. -/
theorem walk_of_steps {pieces : List String} {next : Place}
    (found : pieces.foldlM tree.step place = .ok next) : tree.walk place (inner pieces) = some next := by
  induction pieces generalizing place with
  | nil => exact congrArg some (Except.ok.inj found)
  | cons piece pieces ih =>
    rw [List.foldlM_cons] at found
    cases first : tree.step place piece with
    | error fault => rw [first] at found; contradiction
    | ok middle =>
      rw [first] at found
      have walked := ih found
      obtain ⟨directory, moved⟩ := step_eq_ok_iff.mp first
      split at moved
      · rename_i idle
        rwa [Path.inner_idle idle, ← moved]
      · rename_i named
        rw [Path.inner_named (not_or.mp named), walk_cons, Path.componentOf]
        split at moved
        · rename_i up
          rw [if_pos up, onward_parent, if_pos directory, ← moved, Option.bind_some, walked]
        · rename_i down
          rw [if_neg down, onward_name, if_pos directory, ← moved.2, Option.bind_some, walked]

theorem isDirectory_of_onward {c : Component} {next : Place} (step : c.IsStep)
    (moved : tree.onward place c = some next) : tree.isDirectory place = true := by
  cases c with
  | root => exact step.elim
  | current => exact step.elim
  | parent =>
    rw [onward_parent] at moved
    split at moved
    · assumption
    · contradiction
  | name text =>
    rw [onward_name] at moved
    split at moved
    · assumption
    · contradiction

/-- Steps to something that is there begin at something that is there, which is a directory if there are
any. -/
theorem there_of_walk {steps : List Component} {next : Place} (proper : ∀ c ∈ steps, c.IsStep)
    (walked : tree.walk place steps = some next) (there : (tree.get? next).isSome = true) :
    (tree.get? place).isSome = true ∧ (steps ≠ [] → tree.isDirectory place = true) := by
  cases steps with
  | nil =>
    obtain rfl := Option.some.inj walked
    exact ⟨there, fun nonempty => absurd rfl nonempty⟩
  | cons c steps =>
    rw [walk_cons] at walked
    obtain ⟨middle, first, -⟩ := Option.bind_eq_some_iff.mp walked
    have directory := isDirectory_of_onward (proper c List.mem_cons_self) first
    exact ⟨by rw [isDirectory_iff.mp directory]; rfl, fun _ => directory⟩

/-- Steps to a directory begin in one. -/
theorem isDirectory_of_walk {steps : List Component} {next : Place} (proper : ∀ c ∈ steps, c.IsStep)
    (walked : tree.walk place steps = some next) (directory : tree.isDirectory next = true) :
    tree.isDirectory place = true := by
  by_cases empty : steps = []
  · subst empty
    rwa [Option.some.inj walked]
  · exact (there_of_walk proper walked (by rw [isDirectory_iff.mp directory]; rfl)).2 empty

/-- What is walked up to a directory can be looked up: every piece is an entry's name, or none at all. -/
theorem WellFormed.steps_of_walk (sound : tree.WellFormed) {pieces : List String} {next : Place}
    (free : ∀ piece ∈ pieces, '/' ∉ piece.toList) (walked : tree.walk place (inner pieces) = some next)
    (directory : tree.isDirectory next = true) :
    pieces.foldlM tree.step place = .ok next ∧ ∀ piece ∈ pieces, '\x00' ∉ piece.toList := by
  induction pieces generalizing place with
  | nil => exact ⟨congrArg Except.ok (Option.some.inj walked), nofun⟩
  | cons piece pieces ih =>
    have start := isDirectory_of_walk (fun c => Path.isStep_of_mem_inner free) walked directory
    obtain ⟨-, free⟩ := List.forall_mem_cons.mp free
    rw [List.foldlM_cons, List.forall_mem_cons]
    by_cases idle : piece = "" ∨ piece = "."
    · rw [Path.inner_idle idle] at walked
      obtain ⟨later, clean⟩ := ih free walked
      rw [step_eq_ok_iff.mpr ⟨start, by rw [if_pos idle]⟩]
      exact ⟨later, by rcases idle with rfl | rfl <;> decide, clean⟩
    · rw [Path.inner_named (not_or.mp idle), walk_cons, Path.componentOf] at walked
      by_cases up : piece = ".."
      · rw [if_pos up, onward_parent, if_pos start, Option.bind_some] at walked
        obtain ⟨later, clean⟩ := ih free walked
        rw [step_eq_ok_iff.mpr ⟨start, by rw [if_neg idle, if_pos up]⟩]
        exact ⟨later, by rw [up]; decide, clean⟩
      · rw [if_neg up, onward_name, if_pos start, Option.bind_some] at walked
        obtain ⟨later, clean⟩ := ih free walked
        have there := isDirectory_of_walk (fun c => Path.isStep_of_mem_inner free) walked directory
        have given : (tree.get? (place ++ [piece])).isSome = true := by rw [isDirectory_iff.mp there]; rfl
        have name : IsName piece := sound.isName_of_there given (by simp)
        obtain ⟨-, -, -, -, nul, short⟩ := name
        rw [step_eq_ok_iff.mpr ⟨start, by rw [if_neg idle, if_neg up]; exact ⟨short, rfl⟩⟩]
        exact ⟨later, nul, clean⟩

/-- Pieces that name nothing stay in a directory. -/
theorem steps_idle (directory : tree.isDirectory place = true) {pieces : List String}
    (idle : ∀ piece ∈ pieces, piece = "" ∨ piece = ".") : pieces.foldlM tree.step place = .ok place := by
  induction pieces with
  | nil => rfl
  | cons piece pieces ih =>
    obtain ⟨here, idle⟩ := List.forall_mem_cons.mp idle
    rw [List.foldlM_cons, step_eq_ok_iff.mpr ⟨directory, by rw [if_pos here]⟩]
    exact ih idle

/-- Names are looked up one below the other. -/
theorem WellFormed.steps_names (sound : tree.WellFormed) {names : List String}
    (there : (tree.get? (place ++ names)).isSome = true) :
    names.foldlM tree.step place = .ok (place ++ names) := by
  induction names generalizing place with
  | nil => exact congrArg Except.ok (List.append_nil place).symm
  | cons name names ih =>
    have directory := sound.isDirectory_before there (List.cons_ne_nil _ _)
    obtain ⟨nonempty, other, down, -, -, short⟩ := sound.isName_of_there there
      (List.mem_append_right _ List.mem_cons_self)
    rw [List.append_cons] at there ⊢
    rw [List.foldlM_cons, step_eq_ok_iff.mpr ⟨directory, by
      rw [if_neg (not_or.mpr ⟨nonempty, other⟩), if_neg down]; exact ⟨short, rfl⟩⟩]
    exact ih there

variable {base : Place} {path : String}

/-- Where a path is looked up from. -/
def start (base : Place) (path : String) : Place :=
  if isAbsolute path then [] else base

theorem resolve_eq_ok_iff : tree.resolve base path = .ok place ↔
    '\x00' ∉ path.toList ∧ path ≠ "" ∧ path.utf8ByteSize < maxPathSize ∧
      (Text.splitOn '/' path).foldlM tree.step (start base path) = .ok place := by
  unfold resolve
  split
  · simp_all
  · split
    · simp_all
    · split
      · rename_i long
        exact iff_of_false nofun fun both => absurd both.2.2.1 (Nat.not_lt.mpr long)
      · simp_all [start]

/-- Pieces behind a place where a path begins. -/
theorem leads?_start (tree : FileTree) (base : Place) (path : String) :
    tree.leads? base path = tree.walk (start base path) (inner (Text.splitOn '/' path)) := by
  rw [leads?_eq, Path.course_eq, start]
  split
  · rfl
  · rfl

theorem leads?_of_resolve (found : tree.resolve base path = .ok place) :
    tree.leads? base path = some place := by
  obtain ⟨-, -, -, steps⟩ := resolve_eq_ok_iff.mp found
  rw [leads?_start, walk_of_steps steps]

/-- A path to a directory can be looked up when it is short enough. -/
theorem WellFormed.resolve_of_leads (sound : tree.WellFormed) (nonempty : path ≠ "")
    (short : path.utf8ByteSize < maxPathSize) (leads : tree.leads? base path = .some place)
    (directory : tree.isDirectory place = true) : tree.resolve base path = .ok place := by
  rw [leads?_start] at leads
  obtain ⟨steps, clean⟩ := sound.steps_of_walk (fun _ => Path.slash_not_mem) leads directory
  refine resolve_eq_ok_iff.mpr ⟨fun nul => ?_, nonempty, short, steps⟩
  rw [← Path.join_splitOn path] at nul
  rcases Path.mem_join nul with slash | ⟨piece, given, inside⟩
  · exact absurd slash (by decide)
  · exact clean piece given inside

theorem leads?_join (tree : FileTree) (base : Place) (path : String) {behind : String}
    (relative : isAbsolute behind = false) :
    tree.leads? base (Path.join path behind) =
      (tree.leads? base path).bind fun next => tree.walk next (course behind) := by
  rw [leads?_eq, Path.course_join path relative, walk_append, ← leads?_eq]

theorem steps_concat {pieces : List String} {last : String} {next : Place} :
    (pieces ++ [last]).foldlM tree.step place = .ok next ↔
      ∃ middle, pieces.foldlM tree.step place = .ok middle ∧ tree.step middle last = .ok next := by
  have single (middle : Place) : [last].foldlM tree.step middle = tree.step middle last := by
    rw [List.foldlM_cons]
    cases tree.step middle last <;> rfl
  rw [List.foldlM_append]
  cases pieces.foldlM tree.step place with
  | error fault => exact iff_of_false nofun nofun
  | ok middle =>
    change [last].foldlM tree.step middle = .ok next ↔ _
    rw [single]
    exact ⟨fun final => ⟨middle, rfl, final⟩, fun ⟨_, same, final⟩ => Except.ok.inj same ▸ final⟩

/-- A slash at the end asks for a directory. -/
theorem steps_slash {trunk : String} {next : Place} :
    (Text.splitOn '/' (trunk ++ "/")).foldlM tree.step place = .ok next ↔
      (Text.splitOn '/' trunk).foldlM tree.step place = .ok next ∧ tree.isDirectory next = true := by
  have split := Path.splitOn_slash trunk ""
  rw [String.append_empty, show Text.splitOn '/' "" = [""] from rfl] at split
  rw [split, steps_concat]
  constructor
  · rintro ⟨middle, before, final⟩
    obtain ⟨directory, same⟩ := step_eq_ok_iff.mp final
    obtain rfl : next = middle := by simpa using same
    exact ⟨before, directory⟩
  · rintro ⟨before, directory⟩
    exact ⟨next, before, step_eq_ok_iff.mpr ⟨directory, by simp⟩⟩

/-- What is joined to a path is looked up from where the path leads. -/
theorem resolve_join (found : tree.resolve base path = .ok place) {behind : String}
    (relative : isAbsolute behind = false) (clean : '\x00' ∉ behind.toList)
    (short : (Path.join path behind).utf8ByteSize < maxPathSize) {next : Place}
    (steps : (Text.splitOn '/' behind).foldlM tree.step place = .ok next) :
    tree.resolve base (Path.join path behind) = .ok next := by
  obtain ⟨nul, nonempty, -, before⟩ := resolve_eq_ok_iff.mp found
  have same : start base (Path.join path behind) = start base path := by
    rw [start, start, Path.isAbsolute_join nonempty relative]
  obtain ⟨trunk, whole, joined⟩ := Path.join_relative nonempty relative
  have trunkSteps : (Text.splitOn '/' trunk).foldlM tree.step (start base path) = .ok place := by
    rcases whole with rfl | rfl
    · exact before
    · exact (steps_slash.mp before).1
  have trunkClean : '\x00' ∉ trunk.toList := by
    rcases whole with rfl | rfl
    · exact nul
    · exact fun inside => nul (by rw [String.toList_append]; exact List.mem_append_left _ inside)
  refine resolve_eq_ok_iff.mpr ⟨?_, by simp [joined], short, ?_⟩
  · rw [joined, String.toList_append, String.toList_append]
    simp [trunkClean, clean]
  · rw [same, joined, Path.splitOn_slash, List.foldlM_append, trunkSteps]
    exact steps

/-! ### What is at a path -/

theorem find_eq_ok_iff {entry : Entry} : tree.find base path = .ok entry ↔
    ∃ place, tree.resolve base path = .ok place ∧ tree.get? place = some entry := by
  unfold find
  cases tree.resolve base path with
  | error fault => exact iff_of_false nofun (by rintro ⟨place, found, -⟩; contradiction)
  | ok place =>
    cases there : tree.get? place <;> simp_all [bind, Except.bind]

theorem pathExists_iff : tree.pathExists base path = true ↔
    ∃ place, tree.resolve base path = .ok place ∧ (tree.get? place).isSome = true := by
  unfold pathExists
  simp only [Option.isSome_iff_exists]
  constructor
  · intro found
    cases there : tree.find base path with
    | error fault => rw [there] at found; contradiction
    | ok entry =>
      obtain ⟨place, resolved, here⟩ := find_eq_ok_iff.mp there
      exact ⟨place, resolved, entry, here⟩
  · rintro ⟨place, resolved, entry, here⟩
    rw [find_eq_ok_iff.mpr ⟨place, resolved, here⟩]
    rfl

theorem isDirectoryAt_iff : tree.isDirectoryAt base path = true ↔
    ∃ place, tree.resolve base path = .ok place ∧ tree.isDirectory place = true := by
  unfold isDirectoryAt
  constructor
  · intro found
    split at found
    · rename_i there
      obtain ⟨place, resolved, here⟩ := find_eq_ok_iff.mp there
      exact ⟨place, resolved, isDirectory_iff.mpr here⟩
    · contradiction
  · rintro ⟨place, resolved, directory⟩
    rw [find_eq_ok_iff.mpr ⟨place, resolved, isDirectory_iff.mp directory⟩]

theorem isFileAt_iff : tree.isFileAt base path = true ↔
    ∃ place, tree.resolve base path = .ok place ∧ tree.isFile place = true := by
  unfold isFileAt
  constructor
  · intro found
    split at found
    all_goals first
      | contradiction
      | rename_i there
        obtain ⟨place, resolved, here⟩ := find_eq_ok_iff.mp there
        exact ⟨place, resolved, by rw [isFile, here]⟩
  · rintro ⟨place, resolved, file⟩
    obtain ⟨entry, here, other⟩ := isFile_iff.mp file
    rw [find_eq_ok_iff.mpr ⟨place, resolved, here⟩]
    cases entry with
    | directory => simp [isDirectory, here] at other
    | file content => rfl
    | program script => rfl

theorem isFile_congr {other : FileTree} {elsewhere : Place} (same : tree.get? place = other.get? elsewhere) :
    tree.isFile place = other.isFile elsewhere := by
  rw [isFile, isFile, same]

theorem isFile_of_isDirectory (directory : tree.isDirectory place = true) : tree.isFile place = false := by
  rw [isDirectory_iff] at directory
  rw [isFile, directory]

theorem isFileAt_of_isDirectoryAt (directory : tree.isDirectoryAt base path = true) :
    tree.isFileAt base path = false := by
  obtain ⟨place, resolved, there⟩ := isDirectoryAt_iff.mp directory
  rw [isDirectory_iff] at there
  rw [isFileAt, find_eq_ok_iff.mpr ⟨place, resolved, there⟩]

/-- A path that ends in a slash, or in dots alone, leads to a directory or nowhere. -/
theorem WellFormed.isFileAt_dotted (sound : tree.WellFormed) {before : List String} {last : String}
    (split : Text.splitOn '/' path = before ++ [last]) (dots : last = "" ∨ last = "." ∨ last = "..") :
    tree.isFileAt base path = false := by
  by_contra found
  obtain ⟨place, resolved, file⟩ := isFileAt_iff.mp (Bool.not_eq_false _ ▸ found)
  obtain ⟨-, -, -, steps⟩ := resolve_eq_ok_iff.mp resolved
  rw [split] at steps
  obtain ⟨middle, -, final⟩ := steps_concat.mp steps
  obtain ⟨directory, moved⟩ := step_eq_ok_iff.mp final
  have there : tree.isDirectory place = true := by
    split at moved
    · exact moved ▸ directory
    · rename_i named
      have up := (dots.resolve_left (not_or.mp named).1).resolve_left (not_or.mp named).2
      rw [if_pos up] at moved
      exact moved ▸ sound.isDirectory_above (by rw [isDirectory_iff.mp directory]; rfl)
  rw [isFile_of_isDirectory there] at file
  contradiction

theorem IsName.isStep {name : String} (proper : IsName name) : (Component.name name).IsStep :=
  ⟨proper.1, proper.2.1, proper.2.2.1, proper.2.2.2.1⟩

theorem IsName.step_eq {name : String} (proper : IsName name) (directory : tree.isDirectory place = true) :
    (Text.splitOn '/' name).foldlM tree.step place = .ok (place ++ [name]) := by
  obtain ⟨nonempty, other, down, free, -, short⟩ := proper
  rw [Path.splitOn_of_free free, List.foldlM_cons, step_eq_ok_iff.mpr ⟨directory, ?_⟩]
  · rfl
  · rw [if_neg (not_or.mpr ⟨nonempty, other⟩), if_neg down]
    exact ⟨short, rfl⟩

/-- A path to a directory, with a name behind it, finds what stands there under that name. -/
theorem WellFormed.pathExists_join_iff (sound : tree.WellFormed) {name : String} (proper : IsName name)
    (leads : tree.leads? base path = some place)
    (short : (Path.join path name).utf8ByteSize < maxPathSize) :
    tree.pathExists base (Path.join path name) = true ↔ (tree.get? (place ++ [name])).isSome = true := by
  have relative := Path.isAbsolute_of_free proper.2.2.2.1
  rw [pathExists_iff]
  constructor
  · rintro ⟨next, found, there⟩
    have behind := leads?_of_resolve found
    rw [leads?_join tree base path relative, leads, Option.bind_some,
      Path.course_name proper.isStep] at behind
    have same : next = place ++ [name] := walk_names_eq behind
    rwa [← same]
  · intro there
    have directory := sound.isDirectory_before there (List.cons_ne_nil name [])
    refine ⟨place ++ [name], ?_, there⟩
    by_cases empty : path = ""
    · subst empty
      obtain rfl := Option.some.inj leads
      rw [Path.join_empty_left] at short ⊢
      refine resolve_eq_ok_iff.mpr ⟨proper.2.2.2.2.1, proper.1, short, ?_⟩
      rw [start, relative]
      exact proper.step_eq directory
    · have room : path.utf8ByteSize < maxPathSize := by
        obtain ⟨trunk, rfl | rfl, joined⟩ := Path.join_relative empty relative
        all_goals
          rw [joined] at short
          simp only [String.utf8ByteSize_append] at short ⊢
          omega
      exact resolve_join (sound.resolve_of_leads empty room leads directory) relative proper.2.2.2.2.1
        short (proper.step_eq directory)

end PolicyLint.FileTree
