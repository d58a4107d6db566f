import PolicyLint.Proofs.FilePattern.Reading
import PolicyLint.Proofs.Host.Walk
/-!
What a file pattern covers. The components of a pattern are compared with the steps of a path: `**` stands
for any directories, and nothing but a component that begins with a dot stands for a step up or for no step
at all. Every file that is found when a pattern is followed lies behind steps that the pattern covers.
-/
namespace PolicyLint.FilePattern

open PolicyLint.Path (Component components course inner isAbsolute)

/-! ### Covering -/

/-- Pieces for the directory itself, or for the one above. -/
def Dotted (name : String) (pieces : List Piece) : Prop :=
  pieces.head? = some (.char '.') ∧ matchesName pieces name.toList = true

instance (name : String) : DecidablePred (Dotted name) :=
  fun _ => inferInstanceAs (Decidable (_ ∧ _))

/-- Steps to a file that components of a pattern stand for. -/
inductive Covers : List (List Piece) → List Component → Prop
  | done : Covers [] []
  | stay : pieces = [] ∨ Dotted "." pieces → Covers rest steps → steps ≠ [] → Covers (pieces :: rest) steps
  | up : Dotted ".." pieces → Covers rest steps → steps ≠ [] → Covers (pieces :: rest) (.parent :: steps)
  | name : pieces ≠ [.deep] → matchesName pieces name.toList = true → Covers rest steps →
      Covers (pieces :: rest) (.name name :: steps)
  | deep (directories : List String) : matchesName pieces name.toList = true → Covers rest steps →
      Covers ([.deep] :: pieces :: rest) (directories.map .name ++ .name name :: steps)

theorem Covers.eq_nil {components : List (List Piece)} (covers : Covers components []) : components = [] := by
  generalize same : ([] : List Component) = steps at covers
  cases covers with
  | done => rfl
  | stay _ _ more => exact absurd same.symm more
  | up | name => contradiction
  | deep => simp at same

theorem Covers.eq_nil_of_nil {steps : List Component} (covers : Covers [] steps) : steps = [] := by
  cases covers
  rfl

/-- Nothing goes up and then on: a component for two dots is the last one, or stands behind `**`, where it
is compared with names only. -/
def Descends : List (List Piece) → Prop
  | [] | [_] => True
  | pieces :: next :: rest =>
    if pieces = [.deep] then Descends rest else ¬ Dotted ".." pieces ∧ Descends (next :: rest)

instance decidableDescends : ∀ components, Decidable (Descends components)
  | [] | [_] => isTrue trivial
  | pieces :: next :: rest =>
    have := decidableDescends rest
    have := decidableDescends (next :: rest)
    inferInstanceAs (Decidable (if pieces = [.deep] then _ else _ ∧ _))

theorem descends_cons {pieces : List Piece} {rest : List (List Piece)} (other : pieces ≠ [.deep])
    (descends : Descends (pieces :: rest)) : (rest ≠ [] → ¬ Dotted ".." pieces) ∧ Descends rest := by
  cases rest with
  | nil => exact ⟨fun more => absurd rfl more, trivial⟩
  | cons next rest =>
    rw [Descends, if_neg other] at descends
    exact descends.imp_left fun last _ => last

theorem Dotted.ne_deep {name : String} {pieces : List Piece} (dotted : Dotted name pieces) :
    pieces ≠ [.deep] := by
  rintro rfl
  exact absurd dotted.1 (by decide)

theorem ne_deep_of_idle {pieces : List Piece} (idle : pieces = [] ∨ Dotted "." pieces) : pieces ≠ [.deep] := by
  rcases idle with rfl | dotted
  · exact nofun
  · exact dotted.ne_deep

theorem Covers.names {components : List (List Piece)} {steps : List Component}
    (covers : Covers components steps) (descends : Descends components) :
    ∃ names : List String, steps = names.map .name := by
  induction covers with
  | done => exact ⟨[], rfl⟩
  | stay dotted covers more ih => exact ih (descends_cons (ne_deep_of_idle dotted) descends).2
  | up dotted covers more ih =>
    obtain ⟨last, -⟩ := descends_cons dotted.ne_deep descends
    refine absurd dotted (last fun empty => more ?_)
    subst empty
    exact covers.eq_nil_of_nil
  | @name pieces rest steps name other covered covers ih =>
    obtain ⟨names, rfl⟩ := ih (descends_cons other descends).2
    exact ⟨name :: names, rfl⟩
  | @deep pieces rest steps name directories covered covers ih =>
    rw [Descends, if_pos rfl] at descends
    obtain ⟨names, rfl⟩ := ih descends
    exact ⟨directories ++ name :: names, by simp⟩

/-! ### Paths that go on from others -/

/-- A path that goes on from another by some steps. A directory written as a dot is left out in front of
names, and stays in front of steps up. -/
structure Extends (path : String) (steps : List Component) (longer : String) : Prop where
  nonempty : longer ≠ ""
  absolute : isAbsolute longer = isAbsolute path
  course : course longer = course path ++ steps
  bare : .current ∉ components path → .current ∉ components longer
  trim : (.current ∈ components path → Path.course path = [] ∨ .parent ∈ Path.course path) →
    .current ∈ components longer → Path.course longer = [] ∨ .parent ∈ Path.course longer

theorem Extends.refl {path : String} (nonempty : path ≠ "") : Extends path [] path :=
  ⟨nonempty, rfl, (List.append_nil _).symm, id, id⟩

theorem Extends.trans {path middle longer : String} {steps more : List Component}
    (first : Extends path steps middle) (second : Extends middle more longer) :
    Extends path (steps ++ more) longer :=
  ⟨second.nonempty, second.absolute.trans first.absolute,
    by rw [second.course, first.course, List.append_assoc], second.bare ∘ first.bare,
    second.trim ∘ first.trim⟩

theorem components_eq_current {path : String} (current : .current ∈ components path)
    (nothing : course path = []) : components path = [.current] := by
  rw [Path.course_eq, List.append_eq_nil_iff] at nothing
  rw [Path.components_front, nothing.2, List.append_nil] at current ⊢
  unfold Path.front at current ⊢
  split at current <;> simp_all

theorem join_ne_empty {path behind : String} (nonempty : path ≠ "") (relative : isAbsolute behind = false) :
    Path.join path behind ≠ "" := by
  obtain ⟨trunk, -, joined⟩ := Path.join_relative nonempty relative
  simp [joined]

theorem extends_join {path behind : String} (nonempty : path ≠ "") (relative : isAbsolute behind = false)
    (dots : components path = [.current] → course behind = [] ∨ .parent ∈ course behind) :
    Extends path (course behind) (Path.join path behind) := by
  have split := Path.components_join nonempty relative
  have fresh : .current ∉ inner (Text.splitOn '/' behind) := fun inside => Path.isStep_inner behind _ inside
  refine ⟨join_ne_empty nonempty relative, Path.isAbsolute_join nonempty relative, Path.course_join path relative,
    fun bare => ?_, fun trim inside => ?_⟩
  · rw [split]
    exact List.not_mem_append bare fresh
  · rw [split] at inside
    have current := (List.mem_append.mp inside).resolve_right fresh
    rw [Path.course_join path relative, List.append_eq_nil_iff, List.mem_append]
    rcases trim current with nothing | up
    · rcases dots (components_eq_current current nothing) with idle | up
      · exact .inl ⟨nothing, idle⟩
      · exact .inr (.inr up)
    · exact .inr (.inl up)

theorem extends_extend {path behind : String} (nonempty : path ≠ "") (given : behind ≠ "")
    (relative : isAbsolute behind = false) (plain : .current ∈ components behind → course behind = []) :
    Extends path (course behind) (extend path behind) := by
  unfold extend
  split
  · rename_i alone
    have here : isAbsolute path = false := by
      rw [Bool.eq_false_iff]
      intro absolute
      rw [Path.components_absolute absolute] at alone
      simp at alone
    have nothing : course path = [] := by rw [course, alone]; rfl
    exact ⟨given, relative.trans here.symm, by rw [nothing, List.nil_append],
      fun bare => absurd (alone ▸ List.mem_cons_self) bare, fun _ current => .inl (plain current)⟩
  · rename_i other
    exact extends_join nonempty relative fun alone => absurd alone other

/-- Going on by names. -/
theorem extends_names {path : String} (nonempty : path ≠ "") {names : List String} (more : names ≠ [])
    (proper : ∀ name ∈ names, FileTree.IsName name) :
    Extends path (names.map .name) (extend path (Text.join "/" names)) := by
  have steps : ∀ c ∈ names.map Component.name, c.IsStep := by
    intro c member
    obtain ⟨name, given, rfl⟩ := List.mem_map.mp member
    exact (proper name given).isStep
  have split := Path.components_texts steps
  have whole := Path.course_texts steps
  have relative := Path.isAbsolute_texts steps
  rw [Path.texts_names] at split whole relative
  have result := extends_extend nonempty (fun empty => ?_) relative fun current => ?_
  · rwa [whole] at result
  · rw [empty] at split
    exact more (List.map_eq_nil_iff.mp split.symm)
  · rw [split] at current
    exact (steps _ current).elim

/-! ### Following -/

variable {tree : FileTree} {base : Place}

/-- Paths one component further, where it is not `**`. -/
def nexts (tree : FileTree) (base : Place) (path : String) (pieces : List Piece) : List String :=
  match literal? pieces with
  | some name =>
    let isThere := if name = "." ∨ name = ".." then tree.isDirectoryAt base path
      else tree.pathExists base (extend path name)
    if isThere then [extend path name] else []
  | none =>
    if tree.isDirectoryAt base path then
      ((pathsIn tree base path).filter fun e => matchesName pieces e.2.toList).map Prod.fst ++
        dots pieces path
    else []

theorem follow_cons {path : String} {pieces : List Piece} (other : pieces ≠ [.deep])
    (rest : List (List Piece)) : follow tree base path (pieces :: rest) =
      (nexts tree base path pieces).flatMap fun next => follow tree base next rest := by
  unfold nexts
  rw [follow]
  · cases literal? pieces with
    | some name =>
      dsimp only
      split <;> split <;> simp
    | none =>
      dsimp only
      split <;> simp
  · exact fun same _ => other same
  · exact fun _ _ same _ => other same

/-- Induction along the way a pattern is followed. -/
theorem components_induction {motive : List (List Piece) → Prop} (done : motive []) (last : motive [[.deep]])
    (deep : ∀ pieces rest, motive rest → motive ([.deep] :: pieces :: rest))
    (next : ∀ pieces rest, pieces ≠ [.deep] → motive rest → motive (pieces :: rest)) :
    ∀ components, motive components
  | [] => done
  | pieces :: rest =>
    if same : pieces = [.deep] then
      match rest with
      | [] => same ▸ last
      | more :: rest => same ▸ deep more rest (components_induction done last deep next rest)
    else next pieces rest same (components_induction done last deep next rest)

theorem splitOn_join_piece {path piece : String} (nonempty : path ≠ "") (free : '/' ∉ piece.toList) :
    ∃ before, Text.splitOn '/' (Path.join path piece) = before ++ [piece] := by
  obtain ⟨trunk, -, joined⟩ := Path.join_relative nonempty (Path.isAbsolute_of_free free)
  exact ⟨_, by rw [joined, Path.splitOn_slash, Path.splitOn_of_free free]⟩

theorem splitOn_extend {path piece : String} (nonempty : path ≠ "") (free : '/' ∉ piece.toList) :
    ∃ before, Text.splitOn '/' (extend path piece) = before ++ [piece] := by
  unfold extend
  split
  · exact ⟨[], Path.splitOn_of_free free⟩
  · exact splitOn_join_piece nonempty free

/-- What one component stands for: no step, one up, or a name. Only a name can lead to a file. -/
inductive Stride (tree : FileTree) (base : Place) (pieces : List Piece) (next : String) :
    List Component → Prop
  | stay : pieces = [] ∨ Dotted "." pieces → tree.isFileAt base next = false → Stride tree base pieces next []
  | up : Dotted ".." pieces → tree.isFileAt base next = false → Stride tree base pieces next [.parent]
  | name : matchesName pieces name.toList = true → Stride tree base pieces next [.name name]

theorem of_mem_dots (sound : tree.WellFormed) {path next : String} {pieces : List Piece} (nonempty : path ≠ "")
    (member : next ∈ dots pieces path) :
    ∃ steps, Extends path steps next ∧ Stride tree base pieces next steps := by
  unfold dots at member
  split at member
  · rename_i leads
    obtain ⟨name, given, rfl⟩ := List.mem_map.mp member
    obtain ⟨either, covered⟩ := List.mem_filter.mp given
    rcases List.mem_cons.mp either with rfl | either
    · obtain ⟨before, split⟩ := splitOn_join_piece nonempty (show '/' ∉ ".".toList by decide)
      exact ⟨[], extends_join nonempty (show isAbsolute "." = false by decide) fun _ => .inl (by decide),
        .stay (.inr ⟨leads, covered⟩) (sound.isFileAt_dotted split (by decide))⟩
    · obtain rfl := List.mem_singleton.mp either
      obtain ⟨before, split⟩ := splitOn_join_piece nonempty (show '/' ∉ "..".toList by decide)
      exact ⟨[.parent], extends_join nonempty (show isAbsolute ".." = false by decide) fun _ => .inr (by decide),
        .up ⟨leads, covered⟩ (sound.isFileAt_dotted split (by decide))⟩
  · contradiction

theorem of_mem_pathsIn (sound : tree.WellFormed) {path next name : String} (nonempty : path ≠ "")
    (member : (next, name) ∈ pathsIn tree base path) : Extends path [.name name] next := by
  unfold pathsIn at member
  split at member
  · obtain ⟨⟨names, entry⟩, below, given⟩ := List.mem_filterMap.mp member
    obtain ⟨more, there⟩ := sound.mem_below_iff.mp below
    split at given
    · rename_i only same
      obtain ⟨rfl, rfl⟩ := Prod.mk.inj (Option.some.inj given)
      obtain rfl : names = [only] := same
      have result := extends_names nonempty more fun piece inside =>
        sound.isName_of_there (by rw [there]; rfl) (List.mem_append_right _ inside)
      rwa [Path.join_singleton] at result
    · contradiction
  · contradiction

theorem of_extend_literal (sound : tree.WellFormed) {path name : String} (nonempty : path ≠ "")
    (free : '/' ∉ name.toList) (there : name = "" → tree.pathExists base (extend path name) = true) :
    ∃ steps, Extends path steps (extend path name) ∧
      Stride tree base (literal name) (extend path name) steps := by
  obtain ⟨before, split⟩ := splitOn_extend nonempty free
  by_cases empty : name = ""
  · subst empty
    have other : components path ≠ [.current] := by
      intro alone
      obtain ⟨place, resolved, -⟩ := FileTree.pathExists_iff.mp (there rfl)
      rw [extend, if_pos alone] at resolved
      exact (FileTree.resolve_eq_ok_iff.mp resolved).2.1 rfl
    have result := extends_join nonempty Path.isAbsolute_empty fun alone => absurd alone other
    refine ⟨[], ?_, .stay (.inl rfl) (sound.isFileAt_dotted split (.inl rfl))⟩
    rwa [extend, if_neg other]
  · by_cases here : name = "."
    · subst here
      exact ⟨[], extends_extend nonempty empty (by decide) fun _ => by decide,
        .stay (.inr ⟨rfl, (matchesName_literal _ _).mpr rfl⟩) (sound.isFileAt_dotted split (.inr (.inl rfl)))⟩
    · by_cases up : name = ".."
      · subst up
        exact ⟨[.parent], extends_extend nonempty empty (by decide) fun inside => absurd inside (by decide),
          .up ⟨rfl, (matchesName_literal _ _).mpr rfl⟩ (sound.isFileAt_dotted split (.inr (.inr rfl)))⟩
      · have step : (Component.name name).IsStep := ⟨empty, here, up, free⟩
        have whole := Path.components_texts (List.forall_mem_singleton.mpr step)
        rw [List.map_singleton, Path.join_singleton] at whole
        have result := extends_extend nonempty empty (Path.isAbsolute_of_free free) fun current => by
          rw [Component.text] at whole
          simp [whole] at current
        rw [Path.course_name step] at result
        exact ⟨[.name name], result, .name ((matchesName_literal _ _).mpr rfl)⟩

theorem of_mem_nexts_literal {path next name : String}
    (member : next ∈ nexts tree base path (literal name)) :
    next = extend path name ∧ (name = "" → tree.pathExists base (extend path name) = true) := by
  unfold nexts at member
  rw [literal?_literal] at member
  dsimp only at member
  split at member
  · rename_i dots
    split at member
    · exact ⟨List.mem_singleton.mp member, fun empty => absurd (empty ▸ dots) (by decide)⟩
    · contradiction
  · split at member
    · rename_i there
      exact ⟨List.mem_singleton.mp member, fun _ => there⟩
    · contradiction

theorem of_mem_nexts (sound : tree.WellFormed) {path next : String} {pieces : List Piece} (nonempty : path ≠ "")
    (free : Piece.char '/' ∉ pieces) (member : next ∈ nexts tree base path pieces) :
    ∃ steps, Extends path steps next ∧ Stride tree base pieces next steps := by
  cases found : literal? pieces with
  | some name =>
    obtain rfl := eq_literal_of_literal? found
    obtain ⟨rfl, there⟩ := of_mem_nexts_literal member
    exact of_extend_literal sound nonempty (fun inside => free (List.mem_map_of_mem inside)) there
  | none =>
    unfold nexts at member
    rw [found] at member
    dsimp only at member
    split at member
    · rcases List.mem_append.mp member with inside | inside
      · obtain ⟨⟨path, name⟩, given, rfl⟩ := List.mem_map.mp inside
        obtain ⟨given, covered⟩ := List.mem_filter.mp given
        exact ⟨[.name name], of_mem_pathsIn sound nonempty given, .name covered⟩
      · exact of_mem_dots sound nonempty inside
    · contradiction

theorem of_mem_pathsBelow (sound : tree.WellFormed) {path next last : String} (nonempty : path ≠ "")
    (member : (next, last) ∈ pathsBelow tree base path) :
    ∃ directories : List String, Extends path (directories.map .name ++ [.name last]) next := by
  unfold pathsBelow at member
  split at member
  · obtain ⟨⟨names, entry⟩, below, given⟩ := List.mem_map.mp member
    obtain ⟨more, there⟩ := sound.mem_below_iff.mp below
    obtain ⟨rfl, rfl⟩ := Prod.mk.inj given
    refine ⟨names.dropLast, ?_⟩
    have split : names.dropLast.map Component.name ++ [.name ((names.getLast?).getD "")] =
        names.map .name := by
      rw [← List.map_singleton, ← List.map_append, List.getLast?_eq_some_getLast more, Option.getD_some,
        List.dropLast_append_getLast]
    rw [split]
    exact extends_names nonempty more fun piece inside =>
      sound.isName_of_there (by rw [there]; rfl) (List.mem_append_right _ inside)
  · contradiction

/-- Every path that is found goes on from the beginning, and the pattern covers the way to a file. -/
theorem covers_of_mem_follow (sound : tree.WellFormed) {components : List (List Piece)} {path found : String}
    (free : ∀ pieces ∈ components, Piece.char '/' ∉ pieces) (nonempty : path ≠ "")
    (member : found ∈ follow tree base path components) :
    ∃ steps, Extends path steps found ∧
      (tree.isFileAt base found = true → Covers components steps) := by
  induction components using components_induction generalizing path with
  | done =>
    rw [follow] at member
    obtain rfl := List.mem_singleton.mp member
    exact ⟨[], .refl nonempty, fun _ => .done⟩
  | last =>
    rw [follow] at member
    obtain ⟨inside, directory⟩ := List.mem_filter.mp member
    obtain ⟨⟨next, last⟩, given, rfl⟩ := List.mem_map.mp inside
    obtain ⟨directories, extended⟩ := of_mem_pathsBelow sound nonempty given
    refine ⟨_, extended, fun file => ?_⟩
    rw [FileTree.isFileAt_of_isDirectoryAt directory] at file
    contradiction
  | deep pieces rest ih =>
    rw [follow] at member
    obtain ⟨⟨next, last⟩, given, inside⟩ := List.mem_flatMap.mp member
    obtain ⟨given, covered⟩ := List.mem_filter.mp given
    obtain ⟨directories, first⟩ := of_mem_pathsBelow sound nonempty given
    obtain ⟨free, -⟩ := List.forall_mem_cons.mp (List.forall_mem_cons.mp free).2
    obtain ⟨steps, second, covers⟩ := ih (by simp_all) first.nonempty inside
    refine ⟨_, first.trans second, fun file => ?_⟩
    rw [List.append_assoc, List.singleton_append]
    exact .deep directories covered (covers file)
  | next pieces rest other ih =>
    rw [follow_cons other] at member
    obtain ⟨next, given, inside⟩ := List.mem_flatMap.mp member
    obtain ⟨here, free⟩ := List.forall_mem_cons.mp free
    obtain ⟨stride, first, counted⟩ := of_mem_nexts sound nonempty here given
    obtain ⟨steps, second, covers⟩ := ih free first.nonempty inside
    refine ⟨_, first.trans second, fun file => ?_⟩
    have more : tree.isFileAt base next = false → steps ≠ [] := by
      rintro directory rfl
      obtain rfl := (covers file).eq_nil
      rw [follow] at inside
      obtain rfl := List.mem_singleton.mp inside
      rw [directory] at file
      contradiction
    cases counted with
    | stay dotted directory => exact .stay dotted (covers file) (more directory)
    | up dotted directory => exact .up dotted (covers file) (more directory)
    | name covered => exact .name other covered (covers file)

/-! ### Matching -/

/-- A pattern matches the path of a file: it asks for no directory, both begin alike, and it covers the
steps of the path. -/
def Matches (pattern path : String) : Prop :=
  Text.endsWith "/" pattern = false ∧ isAbsolute pattern = isAbsolute path ∧
    ∃ components, compile pattern = .ok components ∧ Covers components (inner (Text.splitOn '/' path))

theorem inner_eq_of_course {path other : String} (absolute : isAbsolute path = isAbsolute other)
    (same : course path = course other) :
    inner (Text.splitOn '/' path) = inner (Text.splitOn '/' other) := by
  rw [Path.course_eq, Path.course_eq, absolute] at same
  exact List.append_cancel_left same

/-- Every file that is found is matched. -/
theorem matches_of_mem_expand (sound : tree.WellFormed) {pattern path : String} {paths : List String}
    (expanded : expand tree base pattern = .ok paths) (member : path ∈ paths)
    (file : tree.isFileAt base path = true) : Matches pattern path ∧
      (isAbsolute pattern = true → .current ∉ Path.components path) ∧
      (.current ∈ Path.components path → course path = [] ∨ .parent ∈ course path) := by
  rw [expand_eq] at expanded
  obtain ⟨components, compiled, rfl⟩ := Document.map_eq_ok_iff.mp expanded
  split at member
  · obtain ⟨-, directory⟩ := List.mem_filter.mp member
    rw [FileTree.isFileAt_of_isDirectoryAt directory] at file
    contradiction
  · rename_i open'
    obtain ⟨steps, extended, covers⟩ :=
      covers_of_mem_follow sound (slash_of_compile compiled) (origin_ne_empty pattern) member
    have absolute : isAbsolute path = isAbsolute pattern :=
      extended.absolute.trans (isAbsolute_origin pattern)
    have same : steps = inner (Text.splitOn '/' path) := by
      have whole := extended.course
      rw [Path.course_eq, absolute] at whole
      unfold origin at whole
      cases here : isAbsolute pattern with
      | false =>
        rw [here] at whole
        exact whole.symm
      | true =>
        rw [here] at whole
        exact (List.cons_eq_cons.mp whole).2.symm
    refine ⟨⟨Bool.eq_false_iff.mpr open', absolute.symm, components, compiled, same ▸ covers file⟩, ?_, ?_⟩
    · intro here
      refine extended.bare ?_
      rw [origin, if_pos here]
      decide
    · refine extended.trim ?_
      unfold origin
      cases isAbsolute pattern <;> decide

/-! ### A path before a pattern -/

theorem inner_componentsOf (pattern : String) :
    inner (componentsOf pattern) = inner (Text.splitOn '/' pattern) := by
  unfold componentsOf
  dsimp only
  split
  · rename_i last
    conv_rhs => rw [← List.dropLast_append_getLast? _ last, Path.inner_append, Path.inner_idle (.inl rfl)]
    simp
  · rfl

theorem inner_leading (root : String) : inner (leading root) = inner (Text.splitOn '/' root) := by
  have joined : inner (Text.splitOn '/' (Path.join root "")) = inner (Text.splitOn '/' root) := by
    by_cases empty : root = ""
    · rw [empty, Path.join_empty_left]
    · obtain ⟨trunk, whole, joined⟩ := Path.join_relative empty Path.isAbsolute_empty
      rw [joined]
      rcases whole with rfl | rfl
      · rw [Path.splitOn_slash, Path.inner_append]
        exact List.append_nil _
      · rw [String.append_empty]
  rw [leading, inner_componentsOf, ← joined, trail]
  split
  · rename_i absolute
    obtain ⟨rest, same⟩ := (Path.isAbsolute_iff _).mp absolute
    have dropped : String.ofList ((Path.join root "").toList.drop 1) = rest := by
      rw [same, ← String.toList_inj]
      simp
    rw [dropped, same, Path.splitOn_absolute, Path.inner_idle (.inl rfl)]
  · rfl

/-- Pieces that stand for themselves cover the steps they spell. -/
theorem Covers.of_literals {pieces : List String} {components : List (List Piece)} {steps : List Component}
    (proper : ∀ c ∈ steps, c.IsStep) (covers : Covers (pieces.map literal ++ components) steps) :
    ∃ rest, steps = inner pieces ++ rest ∧ Covers components rest := by
  induction pieces generalizing steps with
  | nil => exact ⟨steps, rfl, covers⟩
  | cons piece pieces ih =>
    have spelled : ∀ {name : String}, matchesName (literal piece) name.toList = true → name = piece :=
      fun covered => String.toList_inj.mp ((matchesName_literal _ _).mp covered)
    generalize whole : (piece :: pieces).map literal ++ components = all at covers
    cases covers with
    | done => simp at whole
    | stay dotted covers more =>
      obtain ⟨rfl, rfl⟩ := List.cons_eq_cons.mp whole
      obtain ⟨rest, rfl, behind⟩ := ih proper covers
      refine ⟨rest, ?_, behind⟩
      have idle : piece = "" ∨ piece = "." := by
        rcases dotted with empty | ⟨-, covered⟩
        · exact .inl (String.toList_eq_nil_iff.mp (List.map_eq_nil_iff.mp empty))
        · exact .inr (spelled covered).symm
      rw [Path.inner_idle idle]
    | up dotted covers more =>
      obtain ⟨rfl, rfl⟩ := List.cons_eq_cons.mp whole
      obtain rfl := spelled dotted.2
      obtain ⟨rest, rfl, behind⟩ := ih (List.forall_mem_cons.mp proper).2 covers
      exact ⟨rest, by rw [Path.inner_named (by decide)]; rfl, behind⟩
    | name other covered covers =>
      obtain ⟨rfl, rfl⟩ := List.cons_eq_cons.mp whole
      obtain rfl := spelled covered
      obtain ⟨step, proper⟩ := List.forall_mem_cons.mp proper
      obtain ⟨rest, rfl, behind⟩ := ih proper covers
      refine ⟨rest, ?_, behind⟩
      rw [Path.inner_named ⟨step.1, step.2.1⟩, Path.componentOf, if_neg step.2.2.1, List.cons_append]
    | deep directories covered covers => exact absurd (List.cons_eq_cons.mp whole).1 (literal_ne_deep piece)

theorem endsWith_of_join {root pattern : String} (relative : isAbsolute pattern = false)
    (ends : Text.endsWith "/" (Path.join root pattern) = false) : Text.endsWith "/" pattern = false := by
  rw [Bool.eq_false_iff] at ends ⊢
  intro slash
  obtain ⟨trunk, rfl⟩ := (Path.endsWith_slash_iff pattern).mp slash
  refine ends ((Path.endsWith_slash_iff _).mpr ⟨Path.join root "" ++ trunk, ?_⟩)
  rw [join_eq_append root relative, String.append_assoc]

theorem pattern_ne_empty {root pattern : String} (nonempty : root ≠ "")
    (ends : Text.endsWith "/" (Path.join root pattern) = false) : pattern ≠ "" := by
  rintro rfl
  obtain ⟨trunk, -, joined⟩ := Path.join_relative nonempty Path.isAbsolute_empty
  rw [(Path.endsWith_slash_iff _).mpr ⟨trunk, by rw [joined, String.append_empty]⟩] at ends
  contradiction

theorem compile_of_join {root pattern : String} {components : List (List Piece)} (plain : IsPlain root)
    (relative : isAbsolute pattern = false) (nonempty : pattern ≠ "")
    (compiled : compile (Path.join root pattern) = .ok components) :
    ∃ behind, compile pattern = .ok behind ∧ components = (leading root).map literal ++ behind := by
  rw [compile_join plain relative nonempty] at compiled
  obtain ⟨pieces, parsed, compiled⟩ := Document.bind_eq_ok_iff.mp compiled
  obtain ⟨behind, assembled, rfl⟩ := Document.map_eq_ok_iff.mp compiled
  exact ⟨behind, Document.bind_eq_ok_iff.mpr ⟨pieces, Document.mapError_eq_ok_iff.mp parsed, assembled⟩, rfl⟩

/-- What a pattern behind a path matches goes on from the path, by steps that the pattern covers. -/
theorem Matches.of_join {root pattern path : String} (plain : IsPlain root)
    (relative : isAbsolute pattern = false) (matched : Matches (Path.join root pattern) path) :
    Text.endsWith "/" pattern = false ∧ ∃ components steps, compile pattern = .ok components ∧
      Covers components steps ∧ course path = course root ++ steps := by
  obtain ⟨ends, absolute, components, compiled, covers⟩ := matched
  refine ⟨endsWith_of_join relative ends, ?_⟩
  by_cases bare : root = ""
  · subst bare
    rw [Path.join_empty_left] at compiled absolute
    exact ⟨components, _, compiled, covers, Path.course_relative (absolute ▸ relative)⟩
  · obtain ⟨behind, alone, both⟩ := compile_of_join plain relative (pattern_ne_empty bare ends) compiled
    rw [both] at covers
    obtain ⟨steps, split, covers⟩ := covers.of_literals (Path.isStep_inner path)
    refine ⟨behind, steps, alone, covers, ?_⟩
    rw [Path.isAbsolute_join bare relative] at absolute
    rw [Path.course_eq, Path.course_eq, ← absolute, split, inner_leading, List.append_assoc]

theorem current_not_mem_piece {piece : String} (free : '/' ∉ piece.toList) (other : piece ≠ ".") :
    .current ∉ Path.components piece := by
  intro current
  rw [Path.components_front, Path.front, Path.isAbsolute_of_free free, Path.splitOn_of_free free] at current
  rcases List.mem_append.mp current with lead | inside
  · simp [other] at lead
  · exact Path.isStep_of_mem_inner (by simpa using free) inside

/-- A relative path that does not begin with a dot begins with a name, or goes up. -/
theorem leading_relative {root : String} (nonempty : root ≠ "") (relative : isAbsolute root = false)
    (bare : .current ∉ Path.components root) :
    ∃ piece pieces, leading root = piece :: pieces ∧ '/' ∉ piece.toList ∧ piece ≠ "" ∧ piece ≠ "." := by
  obtain ⟨trunk, whole, joined⟩ := Path.join_relative nonempty Path.isAbsolute_empty
  have behind : isAbsolute (Path.join root "") = false :=
    (Path.isAbsolute_join nonempty Path.isAbsolute_empty).trans relative
  have split : leading root = Text.splitOn '/' trunk := by
    rw [leading, trail, if_neg (by simp [behind]), joined, String.append_empty, componentsOf_slash_end]
  have given : trunk ≠ "" := by
    rintro rfl
    rcases whole with rfl | rfl
    · exact nonempty rfl
    · exact absurd relative (by decide)
  have same : isAbsolute root = isAbsolute trunk ∧
      (Text.splitOn '/' root).head? = (Text.splitOn '/' trunk).head? := by
    rcases whole with rfl | rfl
    · exact ⟨rfl, rfl⟩
    · have slash := Path.splitOn_slash trunk ""
      rw [String.append_empty] at slash
      exact ⟨Path.isAbsolute_append given "/",
        by rw [slash, List.head?_append_of_ne_nil _ (Path.splitOn_ne_nil trunk)]⟩
  obtain ⟨piece, pieces, cut⟩ := List.exists_cons_of_ne_nil (Path.splitOn_ne_nil trunk)
  refine ⟨piece, pieces, split.trans cut, Path.slash_not_mem (cut ▸ List.mem_cons_self), ?_, ?_⟩
  · rintro rfl
    exact Path.head?_splitOn (same.1 ▸ relative) given (by rw [cut]; rfl)
  · rintro rfl
    refine bare ?_
    rw [Path.components_front, Path.front, relative, same.2, cut]
    exact List.mem_append_left _ List.mem_cons_self

theorem bare_of_mem_follow (sound : tree.WellFormed) {piece found : String} {rest : List (List Piece)}
    (clean : '/' ∉ piece.toList) (nonempty : piece ≠ "") (other : piece ≠ ".")
    (free : ∀ pieces ∈ rest, Piece.char '/' ∉ pieces)
    (member : found ∈ follow tree base "." (literal piece :: rest)) :
    .current ∉ Path.components found := by
  rw [follow_cons (literal_ne_deep piece)] at member
  obtain ⟨next, given, inside⟩ := List.mem_flatMap.mp member
  obtain ⟨same, -⟩ := of_mem_nexts_literal given
  have alone : extend "." piece = piece := if_pos (by decide)
  rw [same, alone] at inside
  obtain ⟨steps, extended, -⟩ := covers_of_mem_follow sound free nonempty inside
  exact extended.bare (current_not_mem_piece clean other)

/-- What is found behind a path that begins with a name, or goes up, does not begin with a dot. -/
theorem bare_of_mem_expand (sound : tree.WellFormed) {root pattern path : String} {paths : List String}
    (plain : IsPlain root) (nonempty : root ≠ "") (bare : .current ∉ Path.components root)
    (relative : isAbsolute pattern = false)
    (expanded : expand tree base (Path.join root pattern) = .ok paths) (member : path ∈ paths)
    (file : tree.isFileAt base path = true) : .current ∉ Path.components path := by
  obtain ⟨⟨ends, -⟩, rooted, -⟩ := matches_of_mem_expand sound expanded member file
  cases absolute : isAbsolute root
  · rw [expand_eq] at expanded
    obtain ⟨components, compiled, rfl⟩ := Document.map_eq_ok_iff.mp expanded
    have free := slash_of_compile compiled
    obtain ⟨behind, -, both⟩ := compile_of_join plain relative (pattern_ne_empty nonempty ends) compiled
    obtain ⟨piece, pieces, split, clean, given, other⟩ := leading_relative nonempty absolute bare
    rw [if_neg (by simp [ends]), origin, Path.isAbsolute_join nonempty relative, absolute, both, split] at member
    rw [both, split] at free
    exact bare_of_mem_follow sound clean given other (List.forall_mem_cons.mp free).2 member
  · exact rooted (by rw [Path.isAbsolute_join nonempty relative, absolute])

end PolicyLint.FilePattern
