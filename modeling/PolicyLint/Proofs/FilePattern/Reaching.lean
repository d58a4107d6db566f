import PolicyLint.Proofs.FilePattern.Covering
/-!
What a file pattern finds. Every file behind steps that a pattern covers is found from a path that can be
looked up, if the paths on the way do not grow too long. From the current directory, an empty component
leads nowhere, as the path it would be added to is not written.
-/
namespace PolicyLint.FilePattern

open PolicyLint.Path (Component components course inner isAbsolute)

variable {tree : FileTree} {base place : Place} {path : String}

/-! ### Looking up longer paths -/

theorem size_extend_le {behind : String} (relative : isAbsolute behind = false) :
    (extend path behind).utf8ByteSize ≤ path.utf8ByteSize + 1 + behind.utf8ByteSize := by
  unfold extend
  split
  · omega
  · exact Path.size_join_le path relative

/-- What goes on from a path is looked up from where the path leads. -/
theorem resolve_extend (found : tree.resolve base path = .ok place) {behind : String}
    (relative : isAbsolute behind = false) (given : behind = "" → components path ≠ [.current])
    (clean : '\x00' ∉ behind.toList) (short : (extend path behind).utf8ByteSize < FileTree.maxPathSize)
    {next : Place} (steps : (Text.splitOn '/' behind).foldlM tree.step place = .ok next) :
    tree.resolve base (extend path behind) = .ok next := by
  unfold extend at short ⊢
  split at short
  · rename_i alone
    have leads := FileTree.leads?_of_resolve found
    rw [FileTree.leads?, alone] at leads
    obtain rfl : base = place := Option.some.inj leads
    rw [if_pos alone]
    refine FileTree.resolve_eq_ok_iff.mpr ⟨clean, fun empty => given empty alone, short, ?_⟩
    rw [FileTree.start, relative]
    exact steps
  · rename_i other
    rw [if_neg other]
    exact FileTree.resolve_join found relative clean short steps

theorem splitOn_names {names : List String} (more : names ≠ [])
    (proper : ∀ name ∈ names, FileTree.IsName name) :
    Text.splitOn '/' (Text.join "/" names) = names ∧ isAbsolute (Text.join "/" names) = false := by
  have split := Path.splitOn_join (fun name member => (proper name member).2.2.2.1) more
  obtain ⟨name, rest, rfl⟩ := List.exists_cons_of_ne_nil more
  exact ⟨split, Path.isAbsolute_of_splitOn split (proper name List.mem_cons_self).1⟩

theorem ne_current_of_course {longer : String} (more : course longer ≠ []) :
    components longer ≠ [.current] := by
  intro alone
  exact more (by rw [course, alone]; rfl)

/-- Names go on from a path to what stands below it. -/
theorem resolve_names (sound : tree.WellFormed) (found : tree.resolve base path = .ok place)
    {names : List String} (more : names ≠ []) (there : (tree.get? (place ++ names)).isSome = true)
    (short : path.utf8ByteSize + 1 + (Text.join "/" names).utf8ByteSize < FileTree.maxPathSize) :
    tree.resolve base (extend path (Text.join "/" names)) = .ok (place ++ names) ∧
      (extend path (Text.join "/" names)).utf8ByteSize ≤
        path.utf8ByteSize + 1 + (Text.join "/" names).utf8ByteSize ∧
      components (extend path (Text.join "/" names)) ≠ [.current] := by
  have proper : ∀ name ∈ names, FileTree.IsName name := fun name member =>
    sound.isName_of_there there (List.mem_append_right _ member)
  obtain ⟨split, relative⟩ := splitOn_names more proper
  have bound : (extend path (Text.join "/" names)).utf8ByteSize ≤ path.utf8ByteSize + 1 + _ :=
    size_extend_le relative
  have extended := extends_names (FileTree.resolve_eq_ok_iff.mp found).2.1 more proper
  refine ⟨resolve_extend found relative (fun empty => ?_) (fun nul => ?_) (by omega) ?_, bound,
    ne_current_of_course (by simp [extended.course, more])⟩
  · rw [empty] at split
    obtain rfl : [""] = names := split
    exact absurd rfl (proper "" List.mem_cons_self).1
  · rcases Path.mem_join nul with slash | ⟨name, member, inside⟩
    · exact absurd slash (by decide)
    · exact (proper name member).2.2.2.2.1 inside
  · rw [split]
    exact sound.steps_names there

/-! ### One component further -/

theorem mem_nexts_of_literal {name : String} (there : if name = "." ∨ name = ".." then
      tree.isDirectoryAt base path = true else tree.pathExists base (extend path name) = true) :
    extend path name ∈ nexts tree base path (literal name) := by
  unfold nexts
  rw [literal?_literal]
  dsimp only
  split at there <;> simp_all

theorem mem_nexts_of_dots {pieces : List Piece} {name : String} (either : name = "." ∨ name = "..")
    (dotted : Dotted name pieces) (directory : tree.isDirectoryAt base path = true) :
    ∃ next ∈ nexts tree base path pieces, next = extend path name ∨ next = Path.join path name := by
  cases found : literal? pieces with
  | some text =>
    obtain rfl := eq_literal_of_literal? found
    obtain rfl := String.toList_inj.mp ((matchesName_literal _ _).mp dotted.2)
    exact ⟨_, mem_nexts_of_literal (by rwa [if_pos either]), .inl rfl⟩
  | none =>
    refine ⟨Path.join path name, ?_, .inr rfl⟩
    unfold nexts
    rw [found]
    dsimp only
    rw [if_pos directory]
    refine List.mem_append_right _ ?_
    unfold dots
    rw [if_pos dotted.1]
    exact List.mem_map_of_mem (List.mem_filter.mpr ⟨by simpa using either, dotted.2⟩)

theorem mem_nexts_of_name (sound : tree.WellFormed) (found : tree.resolve base path = .ok place)
    {name : String} (resolved : tree.resolve base (extend path name) = .ok (place ++ [name]))
    {pieces : List Piece} (covered : matchesName pieces name.toList = true)
    (there : (tree.get? (place ++ [name])).isSome = true) :
    extend path name ∈ nexts tree base path pieces := by
  have proper := sound.isName_of_there there (List.mem_append_right place List.mem_cons_self)
  cases text : literal? pieces with
  | some text =>
    obtain rfl := eq_literal_of_literal? text
    obtain rfl := String.toList_inj.mp ((matchesName_literal _ _).mp covered)
    refine mem_nexts_of_literal ?_
    rw [if_neg (not_or.mpr ⟨proper.2.1, proper.2.2.1⟩)]
    exact FileTree.pathExists_iff.mpr ⟨_, resolved, there⟩
  | none =>
    obtain ⟨entry, entered⟩ := Option.isSome_iff_exists.mp there
    have directory := sound.isDirectory_before there (List.cons_ne_nil name [])
    unfold nexts
    rw [text]
    dsimp only
    rw [if_pos (FileTree.isDirectoryAt_iff.mpr ⟨place, found, directory⟩)]
    refine List.mem_append_left _ (List.mem_map.mpr ⟨(extend path name, name), ?_, rfl⟩)
    refine List.mem_filter.mpr ⟨?_, covered⟩
    unfold pathsIn
    rw [found]
    have below : ([name], entry) ∈ tree.below place :=
      sound.mem_below_iff.mpr ⟨List.cons_ne_nil _ _, entered⟩
    exact List.mem_filterMap.mpr ⟨([name], entry), below, rfl⟩

theorem mem_pathsBelow (sound : tree.WellFormed) (found : tree.resolve base path = .ok place)
    {directories : List String} {name : String}
    (there : (tree.get? (place ++ (directories ++ [name]))).isSome = true) :
    (extend path (Text.join "/" (directories ++ [name])), name) ∈ pathsBelow tree base path := by
  obtain ⟨entry, entered⟩ := Option.isSome_iff_exists.mp there
  unfold pathsBelow
  rw [found]
  exact List.mem_map.mpr ⟨(directories ++ [name], entry),
    sound.mem_below_iff.mpr ⟨by simp, entered⟩, by simp⟩

/-- A dot goes on to where the path leads, and two dots to the directory above. -/
theorem resolve_dots (found : tree.resolve base path = .ok place) {next name : String}
    (either : name = "." ∨ name = "..") (same : next = extend path name ∨ next = Path.join path name)
    (short : path.utf8ByteSize + 1 + name.utf8ByteSize < FileTree.maxPathSize)
    (directory : tree.isDirectory place = true) :
    tree.resolve base next = .ok (if name = "." then place else place.dropLast) ∧
      next.utf8ByteSize ≤ path.utf8ByteSize + 1 + name.utf8ByteSize := by
  have relative : isAbsolute name = false := by rcases either with rfl | rfl <;> decide
  have clean : '\x00' ∉ name.toList := by rcases either with rfl | rfl <;> decide
  have given : name = "" → components path ≠ [.current] := fun empty => by
    subst empty
    exact absurd either (by decide)
  have steps : (Text.splitOn '/' name).foldlM tree.step place =
      .ok (if name = "." then place else place.dropLast) := by
    have free : '/' ∉ name.toList := by rcases either with rfl | rfl <;> decide
    rw [Path.splitOn_of_free free, List.foldlM_cons, FileTree.step_eq_ok_iff.mpr ⟨directory, ?_⟩]
    · rfl
    · rcases either with rfl | rfl <;> simp
  rcases same with rfl | rfl
  · have bound : _ ≤ path.utf8ByteSize + _ + _ := size_extend_le relative
    exact ⟨resolve_extend found relative given clean (by omega) steps, bound⟩
  · have bound := Path.size_join_le path relative
    exact ⟨FileTree.resolve_join found relative clean (by omega) steps, bound⟩

theorem components_dot (nonempty : path ≠ "") {next : String}
    (same : next = extend path "." ∨ next = Path.join path ".") : components next = components path := by
  have joined : components (Path.join path ".") = components path := by
    rw [Path.components_join nonempty (by decide)]
    exact List.append_nil _
  rcases same with rfl | rfl
  · unfold extend
    split
    · rename_i alone
      rw [alone]
      decide
    · exact joined
  · exact joined

/-! ### Finding what is covered -/

/-- The components that are followed from the current directory itself are not empty. -/
def Opens : List (List Piece) → Prop
  | [] => True
  | pieces :: rest => pieces ≠ [] ∧ (Dotted "." pieces → Opens rest)

instance decidableOpens : ∀ components, Decidable (Opens components)
  | [] => inferInstanceAs (Decidable True)
  | pieces :: rest =>
    have := decidableOpens rest
    inferInstanceAs (Decidable (pieces ≠ [] ∧ (Dotted "." pieces → Opens rest)))

/-- The length of steps as text, each behind a slash. -/
def room : List Component → Nat
  | [] => 0
  | c :: steps => c.text.utf8ByteSize + 1 + room steps

theorem room_cons (c : Component) (steps : List Component) :
    room (c :: steps) = c.text.utf8ByteSize + 1 + room steps :=
  rfl

theorem room_append (steps more : List Component) : room (steps ++ more) = room steps + room more := by
  induction steps with
  | nil => rw [List.nil_append, room, Nat.zero_add]
  | cons c steps ih => rw [List.cons_append, room_cons, room_cons, ih, ← Nat.add_assoc]

theorem room_names {names : List String} (nonempty : names ≠ []) :
    room (names.map .name) = (Text.join "/" names).utf8ByteSize + 1 := by
  induction names with
  | nil => exact absurd rfl nonempty
  | cons name names ih =>
    have slash : ("/" : String).utf8ByteSize = 1 := by decide
    rw [List.map_cons, room_cons]
    by_cases single : names = []
    · subst single
      rw [Path.join_singleton]
      rfl
    · rw [Path.join_cons name single, ih single, String.utf8ByteSize_append, String.utf8ByteSize_append, slash,
        Component.text]
      omega

/-- A component that stands for no step leads on to the same place. -/
theorem exists_stay (found : tree.resolve base path = .ok place) {pieces : List Piece}
    {rest : List (List Piece)} (dotted : pieces = [] ∨ Dotted "." pieces)
    (directory : tree.isDirectory place = true) (short : path.utf8ByteSize + 2 < FileTree.maxPathSize)
    (opens : components path = [.current] → Opens (pieces :: rest)) :
    ∃ next ∈ nexts tree base path pieces, tree.resolve base next = .ok place ∧
      next.utf8ByteSize ≤ path.utf8ByteSize + 2 ∧ (components next = [.current] → Opens rest) := by
  have nonempty := (FileTree.resolve_eq_ok_iff.mp found).2.1
  rcases dotted with rfl | dotted
  · have other : components path ≠ [.current] := fun alone => (opens alone).1 rfl
    have bound : (extend path "").utf8ByteSize ≤ path.utf8ByteSize + 1 + 0 :=
      size_extend_le Path.isAbsolute_empty
    have resolved : tree.resolve base (extend path "") = .ok place := by
      refine resolve_extend found Path.isAbsolute_empty (fun _ => other) (by decide) (by omega) ?_
      exact FileTree.steps_idle directory (List.forall_mem_singleton.mpr (.inl rfl))
    have there : tree.pathExists base (extend path "") = true := FileTree.pathExists_iff.mpr
      ⟨place, resolved, by rw [FileTree.isDirectory_iff.mp directory]; rfl⟩
    refine ⟨extend path "", mem_nexts_of_literal (by rwa [if_neg (by decide)]), resolved, by omega, ?_⟩
    intro alone
    rw [extend, if_neg other, Path.components_join nonempty Path.isAbsolute_empty] at alone
    exact absurd ((List.append_nil _).symm.trans alone) other
  · obtain ⟨next, member, same⟩ := mem_nexts_of_dots (.inl rfl) dotted
      (FileTree.isDirectoryAt_iff.mpr ⟨place, found, directory⟩)
    have size : (".").utf8ByteSize = 1 := by decide
    obtain ⟨resolved, bound⟩ := resolve_dots found (.inl rfl) same (by omega) directory
    refine ⟨next, member, resolved, by omega, fun alone => ?_⟩
    rw [components_dot nonempty same] at alone
    exact (opens alone).2 dotted

theorem exists_up (found : tree.resolve base path = .ok place) {pieces : List Piece}
    (dotted : Dotted ".." pieces) (directory : tree.isDirectory place = true)
    (short : path.utf8ByteSize + 3 < FileTree.maxPathSize) :
    ∃ next ∈ nexts tree base path pieces, tree.resolve base next = .ok place.dropLast ∧
      next.utf8ByteSize ≤ path.utf8ByteSize + 3 ∧ components next ≠ [.current] := by
  have nonempty := (FileTree.resolve_eq_ok_iff.mp found).2.1
  obtain ⟨next, member, same⟩ := mem_nexts_of_dots (.inr rfl) dotted
    (FileTree.isDirectoryAt_iff.mpr ⟨place, found, directory⟩)
  have size : ("..").utf8ByteSize = 2 := by decide
  obtain ⟨resolved, bound⟩ := resolve_dots found (.inr rfl) same (by omega) directory
  refine ⟨next, member, resolved, by omega, ne_current_of_course ?_⟩
  have up : course ".." = [.parent] := by decide
  have extended : course next = course path ++ course ".." := by
    rcases same with rfl | rfl
    · exact (extends_extend nonempty (by decide) (by decide) (by decide)).course
    · exact Path.course_join path (by decide)
  rw [extended, up]
  simp

theorem mem_follow_cons {pieces : List Piece} (other : pieces ≠ [.deep]) {rest : List (List Piece)}
    {next longer : String} (member : next ∈ nexts tree base path pieces)
    (inside : longer ∈ follow tree base next rest) : longer ∈ follow tree base path (pieces :: rest) := by
  rw [follow_cons other]
  exact List.mem_flatMap.mpr ⟨next, member, inside⟩

/-- Steps that components cover are found. -/
theorem exists_mem_follow (sound : tree.WellFormed) {pattern : List (List Piece)} {steps : List Component}
    (covers : Covers pattern steps) (proper : ∀ c ∈ steps, c.IsStep) {final : Place}
    (file : tree.isFile final = true) (found : tree.resolve base path = .ok place)
    (walked : tree.walk place steps = some final)
    (short : path.utf8ByteSize + 2 * pattern.length + room steps < FileTree.maxPathSize)
    (opens : components path = [.current] → Opens pattern) :
    ∃ longer ∈ follow tree base path pattern, tree.resolve base longer = .ok final := by
  have there := FileTree.there_of_isFile file
  induction covers generalizing path place with
  | done =>
    obtain rfl := Option.some.inj walked
    exact ⟨path, by rw [follow]; exact List.mem_singleton_self path, found⟩
  | @stay pieces rest steps dotted covers more ih =>
    obtain ⟨-, directory⟩ := FileTree.there_of_walk proper walked there
    rw [List.length_cons] at short
    obtain ⟨next, member, resolved, bound, fresh⟩ :=
      exists_stay found dotted (directory more) (by omega) opens
    obtain ⟨longer, inside, reached⟩ := ih proper resolved walked (by omega) fresh
    exact ⟨longer, mem_follow_cons (ne_deep_of_idle dotted) member inside, reached⟩
  | @up pieces rest steps dotted covers more ih =>
    obtain ⟨-, directory⟩ := FileTree.there_of_walk proper walked there
    have directory := directory (List.cons_ne_nil _ _)
    have size : (Component.parent).text.utf8ByteSize = 2 := by decide
    rw [List.length_cons, room_cons, size] at short
    obtain ⟨next, member, resolved, bound, fresh⟩ := exists_up found dotted directory (by omega)
    rw [FileTree.walk_cons, FileTree.onward_parent, if_pos directory, Option.bind_some] at walked
    obtain ⟨longer, inside, reached⟩ := ih (List.forall_mem_cons.mp proper).2 resolved walked (by omega)
      fun alone => absurd alone fresh
    exact ⟨longer, mem_follow_cons dotted.ne_deep member inside, reached⟩
  | @name pieces rest steps name other covered covers ih =>
    obtain ⟨-, directory⟩ := FileTree.there_of_walk proper walked there
    have directory := directory (List.cons_ne_nil _ _)
    rw [List.length_cons, room_cons, Component.text] at short
    rw [FileTree.walk_cons, FileTree.onward_name, if_pos directory, Option.bind_some] at walked
    obtain ⟨-, proper⟩ := List.forall_mem_cons.mp proper
    obtain ⟨here, -⟩ := FileTree.there_of_walk proper walked there
    obtain ⟨resolved, bound, fresh⟩ := resolve_names sound found (List.cons_ne_nil name []) here
      (by rw [Path.join_singleton]; omega)
    rw [Path.join_singleton] at resolved bound fresh
    obtain ⟨longer, inside, reached⟩ := ih proper resolved walked (by omega)
      fun alone => absurd alone fresh
    have member := mem_nexts_of_name sound found resolved covered here
    exact ⟨longer, mem_follow_cons other member inside, reached⟩
  | @deep pieces rest steps name directories covered covers ih =>
    have names : directories.map Component.name ++ .name name :: steps =
        (directories ++ [name]).map .name ++ steps := by simp
    have more : directories ++ [name] ≠ [] := by simp
    rw [names] at proper walked short
    rw [FileTree.walk_append] at walked
    obtain ⟨middle, first, walked⟩ := Option.bind_eq_some_iff.mp walked
    obtain rfl := FileTree.walk_names_eq first
    have proper : ∀ c ∈ steps, c.IsStep := fun c member => proper c (List.mem_append_right _ member)
    obtain ⟨here, -⟩ := FileTree.there_of_walk proper walked there
    rw [List.length_cons, List.length_cons, room_append, room_names more] at short
    obtain ⟨resolved, bound, fresh⟩ := resolve_names sound found more here (by omega)
    obtain ⟨longer, inside, reached⟩ := ih proper resolved walked (by omega)
      fun alone => absurd alone fresh
    refine ⟨longer, ?_, reached⟩
    rw [follow]
    refine List.mem_flatMap.mpr ⟨_, List.mem_filter.mpr ⟨mem_pathsBelow sound found here, covered⟩, inside⟩

theorem resolve_origin {pattern : String} (directory : tree.isDirectory (FileTree.start base pattern) = true) :
    tree.resolve base (origin pattern) = .ok (FileTree.start base pattern) := by
  unfold origin FileTree.start at *
  split
  · have steps : (Text.splitOn '/' "/").foldlM tree.step [] = .ok [] :=
      FileTree.steps_idle rfl (by decide)
    exact FileTree.resolve_eq_ok_iff.mpr ⟨by decide, by decide, by decide, steps⟩
  · rename_i relative
    rw [if_neg relative] at directory
    have steps : (Text.splitOn '/' ".").foldlM tree.step base = .ok base :=
      FileTree.steps_idle directory (by decide)
    exact FileTree.resolve_eq_ok_iff.mpr ⟨by decide, by decide, by decide, steps⟩

/-- A file behind steps that a pattern covers is found. -/
theorem exists_mem_expand (sound : tree.WellFormed) {pattern : String}
    (directory : tree.isDirectory (FileTree.start base pattern) = true) {compiled : List (List Piece)}
    (read : compile pattern = .ok compiled) (open' : Text.endsWith "/" pattern = false)
    {steps : List Component} (covers : Covers compiled steps) (proper : ∀ c ∈ steps, c.IsStep)
    {final : Place} (file : tree.isFile final = true)
    (walked : tree.walk (FileTree.start base pattern) steps = some final)
    (short : 1 + 2 * compiled.length + room steps < FileTree.maxPathSize)
    (opens : isAbsolute pattern = false → Opens compiled) :
    ∃ paths path, expand tree base pattern = .ok paths ∧ path ∈ paths ∧
      tree.resolve base path = .ok final := by
  have size : (origin pattern).utf8ByteSize = 1 := by unfold origin; split <;> decide
  have opens' : components (origin pattern) = [.current] → Opens compiled := by
    intro alone
    refine opens ?_
    rw [← isAbsolute_origin, Bool.eq_false_iff, Ne, Path.isAbsolute_iff_mem, alone]
    decide
  obtain ⟨longer, member, resolved⟩ := exists_mem_follow sound covers proper file
    (resolve_origin directory) walked (by omega) opens'
  refine ⟨follow tree base (origin pattern) compiled, longer, ?_, member, resolved⟩
  rw [expand_eq, read]
  exact congrArg Except.ok (if_neg (by simp [open']))

/-! ### A path before a pattern -/

/-- Pieces that stand for themselves cover the steps they spell, in front of others. -/
theorem Covers.literals {components : List (List Piece)} {steps : List Component}
    (covers : Covers components steps) (more : steps ≠ []) (pieces : List String) :
    Covers (pieces.map literal ++ components) (inner pieces ++ steps) := by
  induction pieces with
  | nil => exact covers
  | cons piece pieces ih =>
    have behind : inner pieces ++ steps ≠ [] := List.append_ne_nil_of_right_ne_nil _ more
    have itself : matchesName (literal piece) piece.toList = true := (matchesName_literal _ _).mpr rfl
    by_cases idle : piece = "" ∨ piece = "."
    · rw [Path.inner_idle idle]
      refine .stay ?_ ih behind
      rcases idle with rfl | rfl
      · exact .inl rfl
      · exact .inr ⟨rfl, itself⟩
    · rw [Path.inner_named (not_or.mp idle), Path.componentOf, List.cons_append]
      split
      · rename_i up
        subst up
        exact .up ⟨rfl, itself⟩ ih behind
      · exact .name (literal_ne_deep piece) itself ih

theorem endsWith_join {root pattern : String} (relative : isAbsolute pattern = false) (nonempty : pattern ≠ "")
    (open' : Text.endsWith "/" pattern = false) : Text.endsWith "/" (Path.join root pattern) = false := by
  rw [Bool.eq_false_iff] at open' ⊢
  intro slash
  obtain ⟨trunk, same⟩ := (Path.endsWith_slash_iff _).mp slash
  rw [join_eq_append root relative] at same
  obtain ⟨front, last, split⟩ : ∃ front last, pattern.toList = front ++ [last] :=
    ⟨_, _, (List.dropLast_append_getLast (mt String.toList_eq_nil_iff.mp nonempty)).symm⟩
  refine open' ((Path.endsWith_slash_iff _).mpr ⟨String.ofList front, ?_⟩)
  have chars := congrArg String.toList same
  rw [String.toList_append, String.toList_append, split, ← List.append_assoc] at chars
  have slash : ("/" : String).toList = ['/'] := by simp
  rw [slash] at chars
  obtain ⟨-, rfl⟩ := List.append_singleton_inj.mp chars
  rw [← String.toList_inj, split]
  simp

end PolicyLint.FilePattern
